import ContentMounts.Archive.CodePage
import ContentMounts.Archive.Crc32
import ContentMounts.Archive.Field

/-!
# Headers of a directory

A directory has one header for each entry. It gives the name and the comment of the entry, its
method and its sizes, and it ends in further fields, each with a kind and a length. Of these, some
replace what the header says: sizes and positions too large for it, the name and the comment in
UTF-8, and the method below an encryption.

Further fields that are cut off end the reading without harm, and those behind them are left out. A
field that breaks the rule of its kind makes the header unreadable.
-/

namespace ContentMounts

namespace Directory

/-- What the directory says of an entry. -/
structure Header where
  /-- The name as it is stored. -/
  storedName : Bytes
  name : Text
  comment : Text
  /-- The number of the compression method. -/
  method : Nat
  encrypted : Bool
  /-- Whether a stronger encryption is announced. -/
  sealed : Bool
  checksum : Nat
  compressedSize : Nat
  size : Nat
  /-- Position of the header in front of the data. -/
  start : Nat
deriving DecidableEq, Repr

/-! ### Further fields -/

/-- Why the reading of further fields ends. -/
inductive FieldStop where
  /-- The bytes are at their end. -/
  | cutOff
  /-- A field breaks the rule of its kind. -/
  | wrong
deriving DecidableEq, Repr

/-- A header while its further fields are read, and the bytes not yet read. -/
structure FieldState where
  header : Header
  rest : Bytes
deriving DecidableEq, Repr

/-- A step of the reading of further fields. What it has changed stays when it stops. -/
abbrev FieldReader := ExceptT FieldStop (StateM FieldState)

namespace FieldReader

/-- The next bytes. -/
def bytes (count : Nat) : FieldReader Bytes := do
  match slice? (← get).rest 0 count with
  | none => throw .cutOff
  | some bs =>
    modify fun s => { s with rest := s.rest.drop count }
    pure bs

/-- The next number of the given width. -/
def number (width : Nat) : FieldReader Nat := do
  pure (field (← bytes width) 0 width)

/-- Stops at a broken rule. -/
def ensure (holds : Bool) : FieldReader Unit := if holds then pure () else throw .wrong

/-- Changes the header. -/
def change (f : Header → Header) : FieldReader Unit :=
  modify fun s => { s with header := f s.header }

/-- The number that stands for one too large for its place in a header. -/
def escapedNumber : Nat := Nat.pow 2 32 - 1

/-- Sizes and positions too large for the header, in this order. All three are given if there is
room for them, and else those that the header lacks. -/
def largeNumbers (length : Nat) : FieldReader Unit := do
  let h := (← get).header
  let given (n : Nat) : Bool := length ≥ 24 || n = escapedNumber
  if given h.size then
    let n ← number 8
    change ({ · with size := n })
  if given h.compressedSize then
    let n ← number 8
    change ({ · with compressedSize := n })
  if given h.start then
    let n ← number 8
    change ({ · with start := n })
  let known := 8 * [h.size, h.compressedSize, h.start].countP given
  ensure (known ≤ length)
  let _ ← bytes (length - known)

/-- The times of an entry as a file system of 64 bits holds them. -/
def longTimes (length : Nat) : FieldReader Unit := do
  ensure (length = 32)
  let _ ← bytes 4
  ensure ((← number 2) = 1)
  ensure ((← number 2) = 24)
  let _ ← bytes 24

/-- The times of an entry in seconds. The three low bits of the first byte tell which are given in
the header in front of the data; here a single one may stand for them. -/
def secondTimes (length : Nat) : FieldReader Unit := do
  let flags ← number 1
  ensure (flags < 8)
  let times := (List.range 3).countP flags.testBit
  ensure (length = 5 ∨ length = 1 + 4 * times)
  let _ ← bytes (if length = 5 then 4 else 4 * times)

/-- Bytes in place of other ones, with the checksum of those. -/
def replacement (length : Nat) (replaced : Bytes) : FieldReader Bytes := do
  let _ ← bytes 1
  let checksum ← number 4
  ensure (length ≥ 5)
  let bs ← bytes (length - 5)
  ensure (checksum = Crc32.checksum replaced)
  pure bs

/-- The name in UTF-8, with the checksum of the name as it is stored. -/
def unicodeName (length : Nat) : FieldReader Unit := do
  let stored ← replacement length (← get).header.storedName
  match Utf8.decode? stored with
  | none => throw .wrong
  | some name => change ({ · with storedName := stored, name := name })

/-- The comment in UTF-8, with the checksum of the comment, once it is read, in UTF-8. -/
def unicodeComment (length : Nat) : FieldReader Unit := do
  match Utf8.decode? (← replacement length (Utf8.encode (← get).header.comment)) with
  | none => throw .wrong
  | some comment => change ({ · with comment := comment })

/-- An encryption, and the method below it. -/
def encryption (length : Nat) : FieldReader Unit := do
  ensure (length = 7)
  let version ← number 2
  let vendor ← number 2
  let strength ← number 1
  let method ← number 2
  ensure (vendor = 0x4541 && [1, 2].contains version && [1, 2, 3].contains strength)
  change ({ · with method := method, sealed := true })

/-- A field, by its kind. -/
def ofKind : Nat → Nat → FieldReader Unit
  | 0x0001, length => largeNumbers length
  | 0x000A, length => longTimes length
  | 0x5455, length => secondTimes length
  | 0x6375, length => unicodeComment length
  | 0x7075, length => unicodeName length
  | 0x9901, length => encryption length
  | _, length => do
    let _ ← bytes length

/-- Some fields. -/
def fields : Nat → FieldReader Unit
  | 0 => pure ()
  | n + 1 => do
    let kind ← number 2
    ofKind kind (← number 2)
    fields n

end FieldReader

/-- The header with its further fields. -/
def withFields (h : Header) (fields : Bytes) : Option Header :=
  match (FieldReader.fields fields.length).run ⟨h, fields⟩ with
  | (.error .wrong, _) => none
  | (_, s) => some s.header

/-! ### Headers -/

/-- The first bytes of a header. -/
def headerMark : Bytes := [0x50, 0x4B, 0x01, 0x02]

/-- The method that stands for encrypted data of another method. -/
def sealedMethod : Nat := 99

/-- The header at a position and the position behind it. The position in it is counted from the
start of the archive, in front of which `offset` bytes stand, and lies in front of the directory,
which starts at `limit`. -/
def header? (file : Bytes) (offset limit start : Nat) : Option (Header × Nat) := do
  let block ← block? headerMark 46 file start
  let flags := field block 8 2
  let nameEnd := start + 46 + field block 28 2
  let fieldsEnd := nameEnd + field block 30 2
  let behind := fieldsEnd + field block 32 2
  let name ← slice? file (start + 46) (field block 28 2)
  let fields ← slice? file nameEnd (field block 30 2)
  let comment ← slice? file fieldsEnd (field block 32 2)
  let decode (bs : Bytes) := if flags.testBit 11 then Utf8.decodeLossy bs else CodePage.decode bs
  let h ← withFields {
    storedName := name
    name := decode name
    comment := decode comment
    method := field block 10 2
    encrypted := flags.testBit 0
    sealed := false
    checksum := field block 16 4
    compressedSize := field block 20 4
    size := field block 24 4
    start := field block 42 4 } fields
  if h.method = sealedMethod ∧ ¬ h.sealed then none
  else if h.start + offset ≥ limit then none
  else some ({ h with start := h.start + offset }, behind)

/-- The given number of headers, one behind the other from a position on. -/
def headers? (file : Bytes) (offset limit : Nat) : Nat → Nat → Option (List Header)
  | 0, _ => some []
  | n + 1, start => do
    let (h, behind) ← header? file offset limit start
    let rest ← headers? file offset limit n behind
    some (h :: rest)

end Directory

end ContentMounts
