import ContentMounts.Error
import ContentMounts.Host.Walk

/-!
# What providers offer

A provider opens filesystems, and a filesystem gives resources for addresses until it is closed.
Whoever uses providers knows them and their filesystems by numbers only; everything else is in the
state that the providers share. The operations on that state are collected in one record, so that a
user of providers can be studied over every way in which providers may behave.
-/

namespace ContentMounts

/-- The number of a provider. -/
abbrev ProviderId := Nat

/-- The number of a filesystem among all that were ever opened. -/
abbrev FileSystemId := Nat

/-- The operations on providers and their filesystems, for a type `σ` of states and a type `ρ` of
resources. -/
structure Backend (σ ρ : Type) where
  /-- Opens a new filesystem for an address. -/
  openNew : ProviderId → Url → σ → Except ProviderError FileSystemId × σ
  /-- The filesystem that is open already for an address. -/
  findOpen : ProviderId → Url → σ → Except ProviderError FileSystemId × σ
  /-- The root address of a filesystem. -/
  rootUri : FileSystemId → σ → Url
  /-- Whether a filesystem is open. -/
  isOpen : FileSystemId → σ → Bool
  /-- Closes a filesystem. -/
  close : FileSystemId → σ → σ
  /-- The resource of a filesystem for an address. -/
  resource : FileSystemId → Url → σ → Except ResourceError ρ × σ
  /-- The address of a resource. -/
  uriOf : ρ → Url
  /-- The host as it is now. -/
  host : σ → Host

end ContentMounts
