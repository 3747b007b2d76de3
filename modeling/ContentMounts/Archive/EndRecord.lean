import ContentMounts.Archive.Field
import ContentMounts.Archive.Header

/-!
# The end of an archive

An archive ends in a record that says where its directory starts and how many headers it has. If one
of these numbers is too large for the record, a wider record stands in front of it, and between the
two a locator with the position of the wider one.

Bytes may stand in front of an archive, in which case all positions given in it are too small by
their number. It shows in the place where the directory, or the wider record, is found.
-/

namespace ContentMounts

namespace Directory

/-- Where the headers of a directory are. -/
structure Extent where
  /-- The number of bytes in front of the archive. -/
  offset : Nat
  /-- Position of the first header. -/
  start : Nat
  /-- The number of headers. -/
  count : Nat
deriving DecidableEq, Repr

/-- What an end record says of the directory. -/
structure EndRecord where
  disk : Nat
  /-- The disk on which the directory starts. -/
  directoryDisk : Nat
  /-- The number of entries on this disk. -/
  entriesHere : Nat
  entries : Nat
  /-- Position of the directory, counted from the start of the archive. -/
  directoryStart : Nat
deriving DecidableEq, Repr

/-! ### Records -/

/-- The first bytes of an end record. -/
def endMark : Bytes := [0x50, 0x4B, 0x05, 0x06]

/-- The end record at a position. It is followed by a comment. -/
def endRecord? (file : Bytes) (position : Nat) : Option EndRecord := do
  let block ← block? endMark 22 file position
  let _ ← slice? file (position + 22) (field block 20 2)
  some {
    disk := field block 4 2
    directoryDisk := field block 6 2
    entriesHere := field block 8 2
    entries := field block 10 2
    directoryStart := field block 16 4 }

/-- Where an end record finds a wider one. -/
structure Locator where
  /-- The disk on which the wider record stands. -/
  disk : Nat
  /-- Position of the wider record, counted from the start of the archive. -/
  start : Nat
  /-- The number of disks. -/
  disks : Nat
deriving DecidableEq, Repr

/-- The first bytes of a locator. -/
def locatorMark : Bytes := [0x50, 0x4B, 0x06, 0x07]

/-- The locator at a position. -/
def locator? (file : Bytes) (position : Nat) : Option Locator := do
  let block ← block? locatorMark 20 file position
  some { disk := field block 4 4, start := field block 8 8, disks := field block 16 4 }

/-- An end record with wider fields. -/
structure WideRecord extends EndRecord where
  /-- The length of the record. -/
  length : Nat
  /-- The version of the format that the archive was written for. -/
  version : Nat
  /-- The version of the format needed to read the archive. -/
  neededVersion : Nat
deriving DecidableEq, Repr

/-- The first bytes of a wide record. -/
def wideMark : Bytes := [0x50, 0x4B, 0x06, 0x06]

/-- The wide record at a position. The length it gives does not count its first twelve bytes. -/
def wideRecord? (file : Bytes) (position : Nat) : Option WideRecord := do
  let block ← block? wideMark 56 file position
  some {
    disk := field block 16 4
    directoryDisk := field block 20 4
    entriesHere := field block 24 8
    entries := field block 32 8
    directoryStart := field block 48 8
    length := field block 4 8 + 12
    version := field block 12 2
    neededVersion := field block 14 2 }

/-! ### Extents -/

/-- The extent that an end record at a position gives. The directory is the first thing behind its
announced start that looks like one. -/
def EndRecord.extent? (e : EndRecord) (file : Bytes) (position : Nat) : Option Extent := do
  let offset ←
    if e.entries = 0 then some (position - e.directoryStart)
    else
      let found := (positionsBetween headerMark file e.directoryStart position).head?
      found.map (· - e.directoryStart)
  if e.disk ≠ e.directoryDisk then none
  else some ⟨offset, e.directoryStart + offset, e.entriesHere⟩

/-- Whether a wide record at a position reaches up to its locator and leaves room for the headers in
front of it. -/
def WideRecord.fits (w : WideRecord) (position : Nat) (l : Locator) (locatorPosition : Nat) :
    Bool :=
  w.length ≥ 56 && position + w.length = locatorPosition && w.directoryDisk = l.disk &&
    46 * w.entries + w.directoryStart ≤ position

/-- The extent that a wide record gives, if the numbers in it go together. -/
def WideRecord.extent? (w : WideRecord) (offset : Nat) : Option Extent :=
  if w.entriesHere ≤ w.entries ∧ w.neededVersion ≤ w.version ∧ w.disk = w.directoryDisk then
    some ⟨offset, w.directoryStart + offset, w.entries⟩
  else none

/-- The extent that the locator at a position gives. Of the wide records behind the announced
position the first that fits counts. -/
def Locator.extent? (l : Locator) (file : Bytes) (position : Nat) : Option Extent :=
  if l.disks > 1 then none
  else do
    let (start, w) ← (positionsBetween wideMark file l.start position).findSome? fun start =>
      ((wideRecord? file start).filter (·.fits start l position)).map (start, ·)
    w.extent? (start - l.start)

/-- Whether a number of an end record may be too large for it. -/
def EndRecord.isEscaped (e : EndRecord) : Bool :=
  e.entries = Nat.pow 2 16 - 1 || e.directoryStart = Nat.pow 2 32 - 1

/-- The extent of the directory of the archive that ends in the record at a position. -/
def extentAt? (file : Bytes) (position : Nat) : Option Extent := do
  let e ← endRecord? file position
  let locator := if e.isEscaped ∧ position ≥ 20 then locator? file (position - 20) else none
  match locator with
  | none => e.extent? file position
  | some l => l.extent? file (position - 20)

end Directory

end ContentMounts
