import ContentMounts.Pool.Config
import ContentMounts.Pool.Registry

/-!
# The pool

A pool shares open filesystems. Each filesystem in use has a record, which is pooled under the
filesystem's root address and counts the handles on it. Addresses are the same key if they are
written the same. A record leaves the pool when its last handle is released or when it is evicted;
then its filesystem is closed and the record is defunct for good. Another record may be pooled under
the same address later, so records are told apart by their numbers and not by their addresses.

The operations of a pool are given one for each time its lock is held; what happens between two of
them is up to others.
-/

namespace ContentMounts

/-- The number of a record among all that a pool ever made. -/
abbrev RecordId := Nat

/-- The number of a handle among all that a pool ever gave out. -/
abbrev HandleId := Nat

/-- The file behind a mount as it was when the mount was made. -/
structure BackingFile where
  path : Path
  snapshot : Host.Snapshot
deriving DecidableEq, Repr

/-- An open filesystem and the number of handles on it. -/
structure MountRecord where
  key : Url
  fs : FileSystemId
  references : Nat
  /-- The file to watch for changes, if there is one. -/
  backing : Option BackingFile
  defunct : Bool
deriving DecidableEq, Repr

/-- How far the release of a handle has come. It is marked first, and the reference is given back
later. -/
inductive HandleState where
  | live
  | marked
  | released
deriving DecidableEq, Repr

/-- A reference on a record, with the resource it was acquired for. -/
structure MountHandle (ρ : Type) where
  record : RecordId
  root : ρ
  state : HandleState
deriving DecidableEq, Repr

/-- A pool: its configuration and providers, the numbers of the records pooled under their keys as
these are written, and all records and handles ever made. -/
structure Pool (ρ : Type) where
  config : PoolConfig
  registry : Registry
  mounts : List (Text × RecordId)
  records : List MountRecord
  handles : List (MountHandle ρ)
deriving DecidableEq, Repr

namespace MountRecord

/-- The file to watch for a key, if the key leads to one that can be looked at. -/
def backingOf (h : Host) (key : Url) : Option BackingFile := do
  let path ← Uri.backingFile? key
  let snapshot ← (h.snapshot path).toOption
  some ⟨path, snapshot⟩

/-- The record of a filesystem with one handle on it. -/
def fresh (h : Host) (key : Url) (fs : FileSystemId) : MountRecord :=
  ⟨key, fs, 1, backingOf h key, false⟩

end MountRecord

namespace Pool

variable {ρ : Type}

/-- A pool without providers. -/
def ofConfig (config : PoolConfig) : Pool ρ := ⟨config, Registry.empty, [], [], []⟩

/-- The record with a number. -/
def record? (p : Pool ρ) (id : RecordId) : Option MountRecord := p.records[id]?

/-- The handle with a number. -/
def handle? (p : Pool ρ) (id : HandleId) : Option (MountHandle ρ) := p.handles[id]?

/-- The record pooled under a key, with its number. -/
def pooled? (p : Pool ρ) (key : Url) : Option (RecordId × MountRecord) := do
  let id ← p.mounts.lookup key.text
  let record ← p.record? id
  some (id, record)

/-- Whether the record with a number is the one pooled under its key. -/
def isPooled (p : Pool ρ) (id : RecordId) : Bool :=
  match p.record? id with
  | some record => p.mounts.lookup record.key.text == some id
  | none => false

/-- The numbers of the pooled records. -/
def pooledIds (p : Pool ρ) : List RecordId := p.mounts.map (·.2)

/-- The pool with a record changed. -/
def modifyRecord (p : Pool ρ) (id : RecordId) (f : MountRecord → MountRecord) : Pool ρ :=
  { p with records := p.records.modify id f }

/-- Registers a provider for its schemes, none of which may address the host directly. -/
def registerProvider (p : Pool ρ) (schemes : List Text) (provider : ProviderId) :
    Except MountError (Pool ρ) :=
  match schemes.find? p.config.isDirectScheme with
  | some scheme => .error (.invalidArgument (.directScheme scheme))
  | none => (p.registry.register schemes provider).map fun registry => { p with registry }

/-! ### Listing -/

/-- What is told of a mount. -/
structure MountInfo where
  key : Url
  references : Nat
  backingFile : Option Path
deriving DecidableEq, Repr

/-- The mounts in ascending order of their keys. -/
def listMounts (p : Pool ρ) : List MountInfo :=
  let infos := p.mounts.filterMap fun (_, id) =>
    (p.record? id).map fun r => ⟨r.key, r.references, r.backing.map (·.path)⟩
  infos.mergeSort fun a b => Text.le a.key.text b.key.text

end Pool

end ContentMounts
