import ContentMounts.Assoc
import ContentMounts.Provider.Basic

/-!
# Registered providers

A provider is registered for all of its schemes or for none, and a scheme keeps the provider it was
registered with first. Schemes are compared without regard to case.
-/

namespace ContentMounts

/-- The providers by scheme, the schemes in lower case. -/
structure Registry where
  providers : List (Text × ProviderId)
deriving DecidableEq, Repr

namespace Registry

/-- A registry without providers. -/
def empty : Registry := ⟨[]⟩

/-- The provider of a scheme. -/
def get? (r : Registry) (scheme : Text) : Option ProviderId :=
  r.providers.lookup (Text.lower scheme)

/-- The registry with a provider for the given schemes. -/
def register (r : Registry) (schemes : List Text) (provider : ProviderId) :
    Except MountError Registry :=
  let schemes := schemes.map Text.lower
  match schemes.find? fun s => (r.providers.lookup s).isSome with
  | some taken => .error (.duplicateProvider taken)
  | none => .ok ⟨schemes.foldl (fun known s => Assoc.put s provider known) r.providers⟩

/-- The registered schemes in ascending order. -/
def schemes (r : Registry) : List Text := Text.sort (r.providers.map (·.1))

end Registry

end ContentMounts
