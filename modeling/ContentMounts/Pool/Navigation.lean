import ContentMounts.Pool.Release

/-!
# Using a mount

A handle leads to the resource it was acquired for and to every other entry of its mount. The names
in an entry path are taken one by one and escaped, so that none of them is read as something else.

What a handle leads to is a pooled resource: it asks the provider's resource as long as its record
is pooled, and fails from then on.
-/

namespace ContentMounts

/-- A resource of a provider, bound to the record it was obtained through. -/
structure PooledResource (ρ : Type) where
  record : RecordId
  inner : ρ
deriving DecidableEq, Repr

/-- The address of what an entry path names below a root address, as it is written. -/
def entryLiteral (key : Text) (entry : Text) : Text :=
  let names := (entry.splitOn '/').filter (!·.isEmpty)
  let base := if key.getLast? = some '/' then key else key ++ ['/']
  base ++ List.intercalate ['/'] (names.map Percent.encodeSegment)
    ++ if entry.getLast? = some '/' ∧ names ≠ [] then ['/'] else []

namespace Pool

variable {σ ρ α : Type}

/-- Whether a record has left the pool for good. -/
def isDefunct (p : Pool ρ) (id : RecordId) : Bool := (p.record? id).any (·.defunct)

/-- The key of a record. -/
def keyOf (p : Pool ρ) (id : RecordId) : Text := ((p.record? id).map (·.key.text)).getD []

/-- Whether a handle was released or its mount evicted. -/
def isStale (p : Pool ρ) (h : MountHandle ρ) : Bool := h.state != .live || p.isDefunct h.record

/-- Fails for a stale handle. -/
def ensureLive (p : Pool ρ) (h : MountHandle ρ) : Except MountError Unit :=
  if p.isStale h then .error (.stale (p.keyOf h.record)) else .ok ()

/-- The resource that a handle was acquired for. -/
def root (p : Pool ρ) (h : MountHandle ρ) : Except MountError (PooledResource ρ) := do
  p.ensureLive h
  pure ⟨h.record, h.root⟩

/-- The address of an entry below the root of a handle's mount. -/
def entryUri (p : Pool ρ) (h : MountHandle ρ) (entry : Text) : Except MountError Url :=
  (Uri.parseAbsolute (entryLiteral (p.keyOf h.record) entry)).mapError MountError.ofResource

/-- The resource of an entry below the root of a handle's mount. -/
def entry (B : Backend σ ρ) (p : Pool ρ) (h : MountHandle ρ) (entry : Text) (s : σ) :
    Except MountError (PooledResource ρ) × σ :=
  match p.ensureLive h, p.entryUri h entry, p.record? h.record with
  | .error e, _, _ => (.error e, s)
  | .ok _, .error e, _ => (.error e, s)
  | .ok _, .ok _, none => (.error (.stale []), s)
  | .ok _, .ok uri, some record =>
    match B.resource record.fs uri s with
    | (.ok inner, s) => (.ok ⟨h.record, inner⟩, s)
    | (.error e, s) => (.error (.resource e), s)

/-- Asks a pooled resource: the question goes to the provider's resource unless the record has left
the pool. -/
def ask (p : Pool ρ) (r : PooledResource ρ) (question : ρ → σ → Except ResourceError α × σ)
    (s : σ) : Except ResourceError α × σ :=
  if p.isDefunct r.record then (.error (.staleMount (p.keyOf r.record)), s)
  else question r.inner s

/-- A handle's display. -/
def display (B : Backend σ ρ) (p : Pool ρ) (h : MountHandle ρ) : Text :=
  "MountHandle[key=".toList ++ p.keyOf h.record ++ ", root=".toList ++ (B.uriOf h.root).text
    ++ [']']

end Pool

end ContentMounts
