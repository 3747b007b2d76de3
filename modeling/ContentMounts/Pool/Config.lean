import ContentMounts.Archive.EntryCache
import ContentMounts.Error
import ContentMounts.Host.Walk
import ContentMounts.Resource.Uri
import ContentMounts.Toml.Document

/-!
# Configuration of a pool

A configuration is read from a document with the keys `direct_schemes`, `archive_schemes`,
`sweep_interval_secs` and `entry_cache`. A missing key has its default, and keys that are not known
are ignored. A value of the wrong kind, or a number that does not fit, makes the whole document
malformed.
-/

namespace ContentMounts

/-- Configuration of a pool. -/
structure PoolConfig where
  /-- The schemes that address the host directly and are never mounted. -/
  directSchemes : List Text := Uri.directSchemes
  /-- The schemes served by the provider for archives. -/
  archiveSchemes : List Text := ["jar".toList, "zip".toList]
  /-- The time between two sweeps in seconds; none are made if it is missing or zero. -/
  sweepIntervalSecs : Option Nat := none
  entryCache : CacheConfig := {}
deriving DecidableEq, Repr

/-! ### Values of the expected kinds -/

namespace Toml

/-- A text. -/
def Value.text? : Value → Option Text
  | .string t => some t
  | _ => none

/-- A list of texts. -/
def Value.texts? : Value → Option (List Text)
  | .array vs => vs.mapM text?
  | _ => none

/-- A natural number below a bound. -/
def Value.natBelow? (bound : Nat) : Value → Option Nat
  | .integer n => if 0 ≤ n ∧ n < bound then some n.toNat else none
  | _ => none

/-- What a reader makes of the value under a key, or the default if the key is missing. -/
def fieldOr {α : Type} (default : α) (read : Value → Option α) (key : String) (es : Entries) :
    Option α :=
  match es.lookup key.toList with
  | none => some default
  | some v => read v

end Toml

namespace CacheConfig

/-- A size or a time in seconds, which has 32 bits. -/
def number? : Toml.Value → Option Nat := Toml.Value.natBelow? (Nat.pow 2 32)

/-- The cache configuration that a value stands for: a table by its keys, an array by position, and
a date, which has none of the keys, for the defaults. -/
def ofValue? : Toml.Value → Option CacheConfig
  | .table _ es => do
    let standard : CacheConfig := {}
    let maxSizeMb ← Toml.fieldOr standard.maxSizeMb number? "max_size_mb" es
    let ttlSecs ← Toml.fieldOr standard.ttlSecs number? "ttl_secs" es
    some ⟨maxSizeMb, ttlSecs⟩
  | .array [] => some {}
  | .array [size] => (number? size).map fun n => { maxSizeMb := n }
  | .array (size :: ttl :: _) => do some ⟨← number? size, ← number? ttl⟩
  | .datetime => some {}
  | _ => none

end CacheConfig

namespace PoolConfig

/-- The configuration in the entries of a document. -/
def ofEntries? (es : Toml.Entries) : Option PoolConfig := do
  let standard : PoolConfig := {}
  let directSchemes ←
    Toml.fieldOr standard.directSchemes Toml.Value.texts? "direct_schemes" es
  let archiveSchemes ←
    Toml.fieldOr standard.archiveSchemes Toml.Value.texts? "archive_schemes" es
  let sweepIntervalSecs ←
    Toml.fieldOr none (fun v => (v.natBelow? (Nat.pow 2 64)).map some) "sweep_interval_secs" es
  let entryCache ← Toml.fieldOr standard.entryCache CacheConfig.ofValue? "entry_cache" es
  some { directSchemes, archiveSchemes, sweepIntervalSecs, entryCache }

/-- The configuration in a document. -/
def ofToml (t : Text) : Except ConfigError PoolConfig :=
  match (Toml.parse? t).bind ofEntries? with
  | some c => .ok c
  | none => .error .malformed

/-- The configuration in a file of the host, which has to be UTF-8. -/
def load (h : Host) (p : Path) : Except ConfigError PoolConfig :=
  match h.read p with
  | .error e => .error (.io e)
  | .ok bytes =>
    match Utf8.decode? bytes with
    | none => .error (.io .invalidData)
    | some t => ofToml t

/-- Whether a scheme addresses the host directly. -/
def isDirectScheme (c : PoolConfig) (scheme : Text) : Bool :=
  c.directSchemes.any (Text.sameIgnoringCase · scheme)

/-- The time between two sweeps in seconds, if sweeps are made. -/
def sweepInterval (c : PoolConfig) : Option Nat := c.sweepIntervalSecs.filter (0 < ·)

end PoolConfig

end ContentMounts
