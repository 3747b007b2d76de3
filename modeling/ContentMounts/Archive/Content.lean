import ContentMounts.Archive.Directory
import ContentMounts.Archive.EntryIndex

/-!
# Opened archives

An archive is opened once: its entries are listed and indexed then, and they stay as they are
whatever happens to the file later. The content of an entry is taken from the file as it is when the
entry is read.
-/

namespace ContentMounts

/-- An opened archive: its entries in their order, and their index. -/
structure Archive where
  entries : List StoredEntry
  index : EntryIndex
deriving DecidableEq, Repr

namespace Archive

/-- The index of a list of entries. -/
def indexOf (entries : List StoredEntry) : EntryIndex :=
  entries.zipIdx.foldl (fun ix (e, i) => ix.insert e.name i e.isDir e.size) EntryIndex.empty

/-- The archive in a file, if the file holds one. -/
def ofBytes? (file : Bytes) : Option Archive :=
  (Directory.read? file).map fun entries => ⟨entries, indexOf entries⟩

/-- The content of the entry with a number, given the bytes of the file. -/
def readEntry (a : Archive) (file : Bytes) (i : Nat) : Except ResourceError Bytes :=
  match a.entries[i]? with
  | some e => e.read file
  | none => .error (.io .notFound)

end Archive

end ContentMounts
