import ContentMounts.Assoc
import ContentMounts.Archive.EntryPath

/-!
# The index of an archive

An archive names its entries one by one and often leaves out directories. The index records each
entry under the normal form of its name and makes up the directories above it that are missing. The
first entry of a name stays; a directory that was made up gives way to an entry.
-/

namespace ContentMounts

/-- What the index knows of a path: the position of the entry in the archive, unless the directory
was made up, whether it is a directory, and its size in bytes. -/
structure EntryInfo where
  index : Option Nat
  isDir : Bool
  size : Nat
deriving DecidableEq, Repr

/-- A directory that no entry stands for. -/
def EntryInfo.directory : EntryInfo := ⟨none, true, 0⟩

/-- The entries by path, and the names in each directory. -/
structure EntryIndex where
  entries : List (Text × EntryInfo)
  children : List (Text × List Text)
deriving DecidableEq, Repr

namespace EntryIndex

/-- The index of an archive without entries. -/
def empty : EntryIndex := ⟨[(EntryPath.root, EntryInfo.directory)], []⟩

/-- What is recorded under a path exactly as it stands. -/
def info? (ix : EntryIndex) (path : Text) : Option EntryInfo := ix.entries.lookup path

/-- The names recorded in a directory. -/
def names (ix : EntryIndex) (dir : Text) : List Text := (ix.children.lookup dir).getD []

/-- The index with information recorded under a path. -/
def record (ix : EntryIndex) (path : Text) (info : EntryInfo) : EntryIndex :=
  { ix with entries := Assoc.put path info ix.entries }

/-- The index with a name recorded in a directory. -/
def addName (ix : EntryIndex) (dir name : Text) : EntryIndex :=
  let known := ix.names dir
  let names := if known.contains name then known else known ++ [name]
  { ix with children := Assoc.put dir names ix.children }

/-- Records a path in the directory above it, and makes up that directory and those above it until
one is known already. Each step shortens the path, so the length of the path bounds the steps. -/
def climb : Nat → EntryIndex → Text → EntryIndex
  | 0, ix, _ => ix
  | fuel + 1, ix, child =>
    let dir := EntryPath.parent child
    let ix := ix.addName dir (EntryPath.filename child)
    if (ix.info? dir).isSome then ix
    else climb fuel (ix.record dir EntryInfo.directory) dir

/-- The index with one more entry of the archive. -/
def insert (ix : EntryIndex) (name : Text) (index : Nat) (isDir : Bool) (size : Nat) : EntryIndex :=
  let path := EntryPath.normalize name
  if path = EntryPath.root then ix
  else if ((ix.info? path).bind (·.index)).isSome then ix
  else
    climb path.length (ix.record path ⟨some index, isDir, if isDir then 0 else size⟩) path

/-- What the index knows of a path in any spelling. -/
def get? (ix : EntryIndex) (path : Text) : Option EntryInfo := ix.info? (EntryPath.normalize path)

/-- The names in a directory in ascending order, with a slash behind those of directories. -/
def list (ix : EntryIndex) (path : Text) : List Text :=
  let dir := EntryPath.normalize path
  Text.sort ((ix.names dir).map fun name =>
    if (ix.info? (EntryPath.join dir name)).any (·.isDir) then name ++ ['/'] else name)

/-- The number of paths known. -/
def size (ix : EntryIndex) : Nat := ix.entries.length

end EntryIndex

end ContentMounts
