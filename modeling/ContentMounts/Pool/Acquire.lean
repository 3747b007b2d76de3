import ContentMounts.Pool.Basic

/-!
# Acquiring a mount

An acquisition first finds the provider for an address. Then, with the lock held, it asks the
provider for a filesystem and looks its root address up in the pool. If a record is pooled there its
filesystem is used, and one that was opened in vain is closed again; if not, the filesystem gets a
record of its own. Nothing is pooled or counted unless the filesystem has a resource for the
address.
-/

namespace ContentMounts

namespace Backend

variable {σ ρ : Type}

/-- A filesystem for an address, and whether it was opened for this request: a new one, or the one
that the provider says is open already. -/
def request (B : Backend σ ρ) (provider : ProviderId) (input : Text) (uri : Url) (s : σ) :
    Except MountError (FileSystemId × Bool) × σ :=
  match B.openNew provider uri s with
  | (.ok fs, s) => (.ok (fs, true), s)
  | (.error .alreadyExists, s) =>
    match B.findOpen provider uri s with
    | (.ok fs, s) => (.ok (fs, false), s)
    | (.error e, s) => (.error (.unopened input e), s)
  | (.error e, s) => (.error (.unopened input e), s)

end Backend

namespace Pool

variable {σ ρ : Type}

/-- The address given by a text and the provider to ask for it. -/
def provider (p : Pool ρ) (input : Text) : Except MountError (Url × ProviderId) := do
  let uri ← (Uri.parseAbsolute input).mapError MountError.ofResource
  if p.config.isDirectScheme uri.scheme then
    throw (.invalidArgument (.schemeNotAllowed input))
  match p.registry.get? uri.scheme with
  | some provider => pure (uri, provider)
  | none => throw (.invalidArgument (.noProvider input))

/-- The pool with one more handle on a record, and the handle. -/
def addHandle (p : Pool ρ) (record : RecordId) (root : ρ) : HandleId × Pool ρ :=
  (p.handles.length, { p with handles := p.handles ++ [⟨record, root, .live⟩] })

/-- The pool with one more reference on a record, and the handle for it. -/
def share (p : Pool ρ) (record : RecordId) (root : ρ) : HandleId × Pool ρ :=
  (p.modifyRecord record fun r => { r with references := r.references + 1 }).addHandle record root

/-- The pool with a new record under a key, and the handle on it. -/
def addRecord (p : Pool ρ) (h : Host) (key : Url) (fs : FileSystemId) (root : ρ) :
    HandleId × Pool ρ :=
  ({ p with
    mounts := Assoc.put key.text p.records.length p.mounts
    records := p.records ++ [MountRecord.fresh h key fs] }).addHandle p.records.length root

/-- The part of an acquisition for which the lock is held. -/
def acquireFrom (B : Backend σ ρ) (provider : ProviderId) (input : Text) (uri : Url) (p : Pool ρ)
    (s : σ) : Except MountError HandleId × Pool ρ × σ :=
  match B.request provider input uri s with
  | (.error e, s) => (.error e, p, s)
  | (.ok (fs, opened), s) =>
    let key := B.rootUri fs s
    match p.pooled? key with
    | some (id, record) =>
      let s := if opened && record.fs != fs then B.close fs s else s
      match B.resource record.fs uri s with
      | (.error e, s) => (.error (.ofResource e), p, s)
      | (.ok root, s) =>
        let (handle, p) := p.share id root
        (.ok handle, p, s)
    | none =>
      if !B.isOpen fs s then (.error (.unopened input .notFound), p, s)
      else
        match B.resource fs uri s with
        | (.error e, s) => (.error (.ofResource e), p, if opened then B.close fs s else s)
        | (.ok root, s) =>
          let (handle, p) := p.addRecord (B.host s) key fs root
          (.ok handle, p, s)

/-- Acquires a mount of the filesystem that an address leads into. -/
def acquire (B : Backend σ ρ) (input : Text) (p : Pool ρ) (s : σ) :
    Except MountError HandleId × Pool ρ × σ :=
  match p.provider input with
  | .error e => (.error e, p, s)
  | .ok (uri, provider) => p.acquireFrom B provider input uri s

/-- Acquires a mount as often as given, one time after the other. -/
def acquireMany (B : Backend σ ρ) (input : Text) : Nat → Pool ρ → σ →
    List (Except MountError HandleId) × Pool ρ × σ
  | 0, p, s => ([], p, s)
  | n + 1, p, s =>
    let (first, p, s) := p.acquire B input s
    let (others, p, s) := acquireMany B input n p s
    (first :: others, p, s)

end Pool

end ContentMounts
