import ContentMounts.Archive.EndRecord
import ContentMounts.Archive.StoredEntry
import ContentMounts.Assoc

/-!
# The directory of an archive

The last end record from whose directory all headers can be read counts. What these say of an entry
counts as well: the header in front of the entry's data is only asked where the data start. Headers
of one name count as one, and when an archive is opened, each entry that remains must have a header
in front of its data.
-/

namespace ContentMounts

namespace Directory

/-- The headers of the archive that ends in the record at a position. -/
def headersAt? (file : Bytes) (position : Nat) : Option (List Header) := do
  let x ← extentAt? file position
  headers? file x.offset x.start x.count x.start

/-- Headers of one name count as one: at the place of the first with the content of the last. -/
def merge (hs : List Header) : List Header :=
  (hs.foldl (fun found h => Assoc.put h.name h found) []).map (·.2)

/-- The first bytes of the header in front of an entry's data. -/
def localMark : Bytes := [0x50, 0x4B, 0x03, 0x04]

/-- The entry of a header. -/
def entryOf? (file : Bytes) (h : Header) : Option StoredEntry := do
  let block ← block? localMark 30 file h.start
  some { h with dataStart := h.start + 30 + field block 26 2 + field block 28 2 }

/-- The entries of the archive in a file. -/
def read? (file : Bytes) : Option (List StoredEntry) := do
  let hs ← (positionsOf endMark 0 file).reverse.findSome? (headersAt? file)
  (merge hs).mapM (entryOf? file)

end Directory

end ContentMounts
