import ContentMounts.Provider.Scripted

/-!
# Providers at work

The host, all providers and all filesystems that were ever opened, with the operations that a pool
needs. A filesystem stays in the list when it is closed. It also stays when nobody refers to it any
more, since its resources may still be in use; its provider does not give it out again then.
-/

namespace ContentMounts

/-- A provider of either kind. -/
inductive Provider where
  | archive (p : ArchiveProvider)
  | scripted (p : ScriptedProvider)

/-- A filesystem of either kind, with the provider that opened it. -/
inductive FileSystem where
  | archive (fs : ArchiveFs)
  | scripted (owner : ProviderId) (fs : ScriptedFs)

/-- A resource of a filesystem of either kind. -/
inductive ProvidedResource where
  | archive (fs : FileSystemId) (r : ArchiveResource)
  | scripted (r : ScriptedResource)
deriving DecidableEq, Repr

/-- The host, the providers and their filesystems. -/
structure World where
  host : Host
  providers : List Provider
  fileSystems : List FileSystem
  /-- The filesystems that nobody refers to any more. -/
  forgotten : List FileSystemId

namespace Provider

/-- The schemes of a provider. -/
def schemes : Provider → List Text
  | archive p => p.schemes
  | scripted p => p.schemes

end Provider

namespace FileSystem

/-- The root address. -/
def root : FileSystem → Url
  | archive fs => fs.root
  | scripted _ fs => fs.root

/-- Whether a filesystem is open. -/
def isOpen : FileSystem → Bool
  | archive fs => fs.isOpen
  | scripted _ fs => fs.isOpen

/-- The filesystem once it is closed. -/
def close : FileSystem → FileSystem
  | archive fs => archive fs.close
  | scripted owner fs => scripted owner fs.close

end FileSystem

namespace ProvidedResource

/-- The address of a resource. -/
def uri : ProvidedResource → Url
  | archive _ r => r.uri
  | scripted r => r.uri

/-- The name of a resource, for display. -/
def name (r : ProvidedResource) : Text := r.uri.text

/-- The alias of a resource. -/
def aliasPath : ProvidedResource → Option Path
  | archive _ r => r.aliasPath
  | scripted _ => none

end ProvidedResource

namespace World

/-- The providers at work on a host before any of them is there. -/
def ofHost (host : Host) : World := ⟨host, [], [], []⟩

/-- The filesystem with a number. -/
def fileSystem? (w : World) (id : FileSystemId) : Option FileSystem := w.fileSystems[id]?

/-- Whether a filesystem is open. -/
def isOpen (w : World) (id : FileSystemId) : Bool := (w.fileSystem? id).any FileSystem.isOpen

/-- Whether a filesystem is open and somebody refers to it. -/
def serves (w : World) (id : FileSystemId) : Bool := w.isOpen id && !w.forgotten.contains id

/-- One more provider, and its number. -/
def addProvider (w : World) (p : Provider) : ProviderId × World :=
  (w.providers.length, { w with providers := w.providers ++ [p] })

/-- The world with a provider replaced. -/
def setProvider (w : World) (id : ProviderId) (p : Provider) : World :=
  { w with providers := w.providers.set id p }

/-- The world with a filesystem replaced. -/
def setFileSystem (w : World) (id : FileSystemId) (fs : FileSystem) : World :=
  { w with fileSystems := w.fileSystems.set id fs }

/-- One more filesystem, and its number. -/
def addFileSystem (w : World) (fs : FileSystem) : FileSystemId × World :=
  (w.fileSystems.length, { w with fileSystems := w.fileSystems ++ [fs] })

/-- The world without the last reference on a filesystem. -/
def forget (w : World) (id : FileSystemId) : World := { w with forgotten := id :: w.forgotten }

/-! ### Providers -/

/-- Opens a new filesystem for an address. -/
def openNew (provider : ProviderId) (uri : Url) (w : World) :
    Except ProviderError FileSystemId × World :=
  match w.providers[provider]? with
  | none => (.error .notFound, w)
  | some (.archive p) =>
    match p.openNew w.serves w.host w.fileSystems.length uri with
    | (.error e, p) => (.error e, w.setProvider provider (.archive p))
    | (.ok fs, p) =>
      let (id, w) := (w.setProvider provider (.archive p)).addFileSystem (.archive fs)
      (.ok id, w)
  | some (.scripted p) =>
    match p.openNew w.isOpen w.fileSystems.length uri with
    | (.error e, p) => (.error e, w.setProvider provider (.scripted p))
    | (.ok fs, p) =>
      let (id, w) := (w.setProvider provider (.scripted p)).addFileSystem (.scripted provider fs)
      (.ok id, w)

/-- The filesystem that is open already for an address. -/
def findOpen (provider : ProviderId) (uri : Url) (w : World) : Except ProviderError FileSystemId :=
  match w.providers[provider]? with
  | none => .error .notFound
  | some (.archive p) => p.findOpen w.serves w.host uri
  | some (.scripted p) => p.findOpen w.isOpen uri

/-- Adds moves to the script of a provider. -/
def addMoves (provider : ProviderId) (moves : List ScriptedMove) (w : World) : World :=
  match w.providers[provider]? with
  | some (.scripted p) =>
    w.setProvider provider (.scripted { p with script := p.script ++ moves })
  | _ => w

/-- How many filesystems of a provider that follows a script were made, and how many of them were
closed after having been open. -/
def scriptedCounts (provider : ProviderId) (w : World) : Nat × Nat :=
  let own := w.fileSystems.filterMap fun
    | .scripted owner fs => if owner = provider then some fs else none
    | .archive _ => none
  (own.length, own.countP (·.state == .closed))

/-! ### Filesystems and their resources -/

/-- The address of a filesystem that there is not. -/
def noRoot : Url := ⟨[], none, [], none, none⟩

/-- The root address of a filesystem. -/
def rootUri (id : FileSystemId) (w : World) : Url :=
  ((w.fileSystem? id).map FileSystem.root).getD noRoot

/-- Closes a filesystem. -/
def close (id : FileSystemId) (w : World) : World :=
  match w.fileSystem? id with
  | some fs => w.setFileSystem id fs.close
  | none => w

/-- The resource of a filesystem for an address. -/
def resource (id : FileSystemId) (uri : Url) (w : World) :
    Except ResourceError ProvidedResource :=
  match w.fileSystem? id with
  | none => .error (.staleMount [])
  | some (.archive fs) => (fs.resource w.host uri).map (.archive id)
  | some (.scripted _ fs) => (fs.resource uri).map .scripted

/-- What a pool needs. -/
def backend : Backend World ProvidedResource where
  openNew := openNew
  findOpen provider uri w := (findOpen provider uri w, w)
  rootUri := rootUri
  isOpen id w := w.isOpen id
  close := close
  resource id uri w := (resource id uri w, w)
  uriOf := ProvidedResource.uri
  host := World.host

/-- The answer of an archive to a question about one of its entries. -/
def askArchive {α : Type} (id : FileSystemId) (w : World)
    (question : ArchiveFs → Except ResourceError α) : Except ResourceError α :=
  match w.fileSystem? id with
  | some (.archive fs) => question fs
  | _ => .error (.staleMount [])

/-- Whether there is something at a resource. -/
def pathExists (w : World) : ProvidedResource → Except ResourceError Bool
  | .archive id r => w.askArchive id fun fs => fs.pathExists r
  | .scripted _ => .ok true

/-- Whether a resource is a directory. -/
def isDirectory (w : World) : ProvidedResource → Except ResourceError Bool
  | .archive id r => w.askArchive id fun fs => fs.isDirectory r
  | .scripted _ => .ok false

/-- Length of a resource in bytes. -/
def length (w : World) : ProvidedResource → Except ResourceError Nat
  | .archive id r => w.askArchive id fun fs => fs.length r
  | .scripted _ => .ok ScriptedResource.content.length

/-- Time of last modification of a resource, if it has one. -/
def lastModified (w : World) : ProvidedResource → Except ResourceError (Option Moment)
  | .archive id r => w.askArchive id fun fs => (fs.lastModified r).map some
  | .scripted _ => .ok none

/-- The names in a resource. -/
def list (w : World) : ProvidedResource → Except ResourceError (List Text)
  | .archive id r => w.askArchive id fun fs => fs.list r
  | .scripted r => .error (.notADirectory r.uri.text)

/-- The content of a resource. An archive may keep it for the next reader. -/
def read (r : ProvidedResource) (w : World) : Except ResourceError Bytes × World :=
  match r with
  | .archive id r =>
    match w.fileSystem? id with
    | some (.archive fs) =>
      let (content, fs) := fs.read w.host r
      (content, w.setFileSystem id (.archive fs))
    | _ => (.error (.staleMount []), w)
  | .scripted _ => (.ok ScriptedResource.content, w)

end World

end ContentMounts
