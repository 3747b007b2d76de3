import ContentMounts.Archive.Content
import ContentMounts.Archive.EntryCache
import ContentMounts.Archive.Root

/-!
# Archives as filesystems

An archive that was opened serves its entries until it is closed. A resource of it is made from an
address and looks its entry up by the normal form of the entry's path; an address that spells the
path differently is flagged by an alias.

The file is held by its number, so an archive whose file was moved or deleted can still be read.
-/

namespace ContentMounts

/-- An archive serving its entries. -/
structure ArchiveFs where
  root : Url
  file : FileId
  /-- Time of last modification of the file when the archive was opened. -/
  modified : Moment
  archive : Archive
  cache : EntryCache
  isOpen : Bool

/-- An entry of an archive, by its address. -/
structure ArchiveResource where
  uri : Url
  /-- Normal form of the entry's path. -/
  path : Text
  aliasPath : Option Path
deriving DecidableEq, Repr

namespace ArchiveResource

/-- The path an entry is spelled with, but for one slash at its end. -/
def literal (entry : Text) : Text :=
  '/' :: if entry.getLast? = some '/' then entry.dropLast else entry

/-- The resource for an address with the given entry. -/
def ofEntry (uri : Url) (entry : Text) : ArchiveResource :=
  let path := EntryPath.normalize entry
  ⟨uri, path, if literal entry = path then none else some (Path.ofText path)⟩

/-- The name of a resource, for display. -/
def name (r : ArchiveResource) : Text := r.uri.text

end ArchiveResource

namespace ArchiveFs

/-- Opens the archive at a path. -/
def openAt (h : Host) (root : Url) (path : Path) (config : CacheConfig) :
    Except ProviderError ArchiveFs := do
  let node ← (h.stat path).mapError .io
  let file ← match node with
    | .file id => pure id
    | _ => throw (.unsupported root.text .notArchive)
  match Archive.ofBytes? (((h.stored? file).map (·.content)).getD []) with
  | none => throw (.unsupported root.text .notArchive)
  | some archive =>
    pure {
      root, file, archive
      modified := (h.snapshotOf node).modified
      cache := EntryCache.empty config
      isOpen := true }

/-- The filesystem once it is closed; closing it again changes nothing. -/
def close (fs : ArchiveFs) : ArchiveFs := { fs with cache := fs.cache.clear, isOpen := false }

/-- Fails once the filesystem is closed. -/
def ensureOpen (fs : ArchiveFs) : Except ResourceError Unit :=
  if fs.isOpen then .ok () else .error (.staleMount fs.root.text)

/-- The resource for an address, which has to lead into this archive. -/
def resource (fs : ArchiveFs) (h : Host) (uri : Url) : Except ResourceError ArchiveResource := do
  fs.ensureOpen
  let (root, _) ← (Archive.root h uri).mapError fun e =>
    .invalidArgument (.unresolvable uri.text e)
  if root ≠ fs.root then throw (.invalidArgument (.outside uri.text fs.root.text))
  pure (ArchiveResource.ofEntry uri (Uri.containerEntry uri))

/-! ### What a resource can be asked -/

/-- What is known of a resource's entry. -/
def entry (fs : ArchiveFs) (r : ArchiveResource) : Except ResourceError EntryInfo := do
  fs.ensureOpen
  match fs.archive.index.get? r.path with
  | some info => pure info
  | none => throw (.notFound r.name)

/-- Whether there is such an entry. -/
def pathExists (fs : ArchiveFs) (r : ArchiveResource) : Except ResourceError Bool := do
  fs.ensureOpen
  pure (fs.archive.index.get? r.path).isSome

/-- Whether the entry is a directory. -/
def isDirectory (fs : ArchiveFs) (r : ArchiveResource) : Except ResourceError Bool := do
  fs.ensureOpen
  pure ((fs.archive.index.get? r.path).any (·.isDir))

/-- Length in bytes as the archive announces it, zero for a directory. -/
def length (fs : ArchiveFs) (r : ArchiveResource) : Except ResourceError Nat :=
  (fs.entry r).map (·.size)

/-- Time of last modification: that of the archive. -/
def lastModified (fs : ArchiveFs) (r : ArchiveResource) : Except ResourceError Moment :=
  (fs.entry r).map fun _ => fs.modified

/-- The number of the entry with the content of a resource. -/
def contentIndex (fs : ArchiveFs) (r : ArchiveResource) : Except ResourceError Nat := do
  let info ← fs.entry r
  if info.isDir then throw (.isADirectory r.name)
  match info.index with
  | some i => pure i
  | none => throw (.notFound r.name)

/-- The content of a resource, without a look into the cache. -/
def readFile (fs : ArchiveFs) (h : Host) (r : ArchiveResource) : Except ResourceError Bytes := do
  let i ← fs.contentIndex r
  fs.archive.readEntry (((h.stored? fs.file).map (·.content)).getD []) i

/-- The content of a resource, from the cache if it is there, and the filesystem with the content
kept. -/
def read (fs : ArchiveFs) (h : Host) (r : ArchiveResource) :
    Except ResourceError Bytes × ArchiveFs :=
  match fs.contentIndex r, fs.cache.get? r.path with
  | .error e, _ => (.error e, fs)
  | .ok _, some content => (.ok content, fs)
  | .ok _, none =>
    match fs.readFile h r with
    | .ok content => (.ok content, { fs with cache := fs.cache.put r.path content })
    | .error e => (.error e, fs)

/-- The names in a directory in ascending order. -/
def list (fs : ArchiveFs) (r : ArchiveResource) : Except ResourceError (List Text) := do
  let info ← fs.entry r
  if !info.isDir then throw (.notADirectory r.name)
  pure (fs.archive.index.list r.path)

end ArchiveFs

end ContentMounts
