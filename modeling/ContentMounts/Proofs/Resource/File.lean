import ContentMounts.Proofs.Alias.Resolve
import ContentMounts.Proofs.Url.File
import ContentMounts.Resource.File

/-!
# What resources are made of

A resource is made from a literal address or from a path. `IsOfUri` and `IsOfPath` say what each of
the two determines of it, field by field, so that nothing that follows has to read once more how a
resource is made. Of what a resource is made from a path, the address is written for its parts; of
what it is made from an address, the address is the text that was given.
-/

namespace ContentMounts

namespace FileResource

variable {plat : Platform} {workingDir : Path}

/-- What a resource made from an address is made of: the address as it was given and as it is read,
and the path that it spells with the alias found for it. -/
structure IsOfUri (plat : Platform) (input : Text) (raw : Path) (r : FileResource) : Prop where
  literal_eq : r.literal = input
  parse_eq : Url.parse input = .ok r.uri
  literalPath?_eq : Uri.literalPath? input = some raw
  path_eq : r.path = raw.collapse
  alias_eq : r.aliasPath = plat.detect true raw raw.collapse

lemma exists_isOfUri {input : Text} {r : FileResource} (hr : ofUri plat input = .ok r) :
    ∃ raw, IsOfUri plat input raw r := by
  obtain ⟨u, hu, hr⟩ := exists_of_bind_eq_ok hr
  have hparse : Url.parse input = .ok u := by
    unfold Uri.parseAbsolute at hu
    split at hu
    · next hparse => rw [hparse, Except.ok.inj hu]
    · cases hu
    · cases hu
  cases hdirect : Uri.isDirectScheme u.scheme with
  | false =>
    rw [hdirect] at hr
    cases hr
  | true =>
    rw [hdirect] at hr
    obtain ⟨resolved, hresolved, hr⟩ := exists_of_bind_eq_ok hr
    obtain ⟨raw, hraw, rfl⟩ := Platform.exists_literalPath?_of_resolveUri hresolved
    cases hr
    exact ⟨raw, rfl, hparse, hraw, rfl, rfl⟩

/-- What a resource made from a path is made of: the path as it stands in the working directory with
the alias found for it, and the address that is written for its parts. -/
structure IsOfPath (plat : Platform) (workingDir raw : Path) (r : FileResource) : Prop where
  isAbsolute : r.path.isAbsolute = true
  uri_eq : r.uri = Url.fileAddress (Url.writtenNames r.path.components)
  literal_eq : r.literal = r.uri.text
  path_eq : r.path = Platform.anchor workingDir raw
  alias_eq : r.aliasPath = plat.detect false raw r.path

lemma isOfPath_of_ofPath {raw : Path} {r : FileResource}
    (hr : ofPath plat workingDir raw = .ok r) : IsOfPath plat workingDir raw r := by
  unfold ofPath at hr
  dsimp only at hr
  split at hr
  · next u hu =>
    cases hr
    unfold Url.ofPath? at hu
    split at hu
    · next habs =>
      cases hu
      exact ⟨habs, rfl, rfl, rfl, rfl⟩
    · cases hu
  · cases hr

end FileResource

end ContentMounts
