import ContentMounts.Pool.Basic

/-!
# Releasing and evicting

A handle is released once: closing marks it, and only who marked it gives its reference back. A
record is retired when its last reference is given back or when it is evicted. A reference on a
record that is not pooled any more, even if another record is pooled under the same key, is given
back without any effect.
-/

namespace ContentMounts

namespace Pool

variable {σ ρ : Type}

/-- The pool without the record pooled under a key; the record with the given number becomes
defunct. -/
def unpool (p : Pool ρ) (id : RecordId) (key : Url) : Pool ρ :=
  { p with mounts := Assoc.erase key.text p.mounts }.modifyRecord id
    fun r => { r with defunct := true }

/-- Takes a pooled record out of the pool: it becomes defunct, and its filesystem is closed. -/
def retire (B : Backend σ ρ) (id : RecordId) (p : Pool ρ) (s : σ) : Pool ρ × σ :=
  match p.record? id with
  | none => (p, s)
  | some record => (p.unpool id record.key, if record.defunct then s else B.close record.fs s)

/-- Gives one reference on a record back. -/
def dropReference (B : Backend σ ρ) (id : RecordId) (p : Pool ρ) (s : σ) : Pool ρ × σ :=
  if p.isPooled id then
    let p := p.modifyRecord id fun r => { r with references := r.references - 1 }
    if (p.record? id).any (·.references == 0) then p.retire B id s else (p, s)
  else (p, s)

/-- The pool with the state of a handle changed. -/
def setHandle (p : Pool ρ) (id : HandleId) (state : HandleState) : Pool ρ :=
  { p with handles := p.handles.modify id fun h => { h with state } }

/-- Marks a handle for release: whether it was live until now, and the pool with the mark. -/
def mark (p : Pool ρ) (id : HandleId) : Bool × Pool ρ :=
  if (p.handle? id).any (·.state == .live) then (true, p.setHandle id .marked) else (false, p)

/-- Gives the reference of a marked handle back. -/
def release (B : Backend σ ρ) (id : HandleId) (p : Pool ρ) (s : σ) : Pool ρ × σ :=
  match p.handle? id with
  | none => (p, s)
  | some handle =>
    if handle.state = .marked then (p.setHandle id .released).dropReference B handle.record s
    else (p, s)

/-- Closes a handle; later calls do nothing. A handle that goes out of use is closed, too. -/
def close (B : Backend σ ρ) (id : HandleId) (p : Pool ρ) (s : σ) : Pool ρ × σ :=
  match p.mark id with
  | (true, p) => p.release B id s
  | (false, p) => (p, s)

/-- Retires a record whatever its references, if it is still pooled: whether it was, and what
follows. -/
def evict (B : Backend σ ρ) (id : RecordId) (p : Pool ρ) (s : σ) : Bool × Pool ρ × σ :=
  if p.isPooled id then (true, p.retire B id s) else (false, p, s)

end Pool

end ContentMounts
