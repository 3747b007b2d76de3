import ContentMounts.Archive.Crc32
import ContentMounts.Archive.Inflate
import ContentMounts.Error

/-!
# Entries of an archive

An entry is known by what the directory of the archive says of it and by the place of its data. Its
content is checked against the announced checksum when it is read.
-/

namespace ContentMounts

/-- An entry of an archive. -/
structure StoredEntry where
  name : Text
  /-- The number of the compression method. -/
  method : Nat
  encrypted : Bool
  /-- Whether a stronger encryption is announced. -/
  sealed : Bool
  checksum : Nat
  compressedSize : Nat
  size : Nat
  /-- Position of the data in the file. -/
  dataStart : Nat
deriving DecidableEq, Repr

namespace StoredEntry

/-- Whether an entry stands for a directory. -/
def isDir (e : StoredEntry) : Bool :=
  match e.name.getLast? with
  | some c => c == '/' || c == '\\'
  | none => false

/-- Largest size for which memory can be asked. -/
def capacityLimit : Nat := Nat.pow 2 63 - 1

/-- The failure that compressed data lead to. -/
def failure : Inflate.Failure → IoError
  | .corrupt => .invalidInput
  | .truncated => .unexpectedEof

/-- The content of an entry of a file. Data are read as they are (method 0) or decompressed (method
8), as far as the file holds them, and their checksum has to be the announced one; their announced
size is not checked. -/
def read (e : StoredEntry) (file : Bytes) : Except ResourceError Bytes := do
  if e.encrypted ∨ e.method ∉ [0, 8] then throw (.io .unsupported)
  if e.sealed then throw (.io .invalidInput)
  if e.size > capacityLimit then throw (.capacity e.size)
  let data := (file.drop e.dataStart).take e.compressedSize
  let content ←
    if e.method = 0 then pure data
    else (Inflate.decompress data).mapError fun f => .io (failure f)
  if Crc32.checksum content ≠ e.checksum then throw (.io .invalidData)
  pure content

end StoredEntry

end ContentMounts
