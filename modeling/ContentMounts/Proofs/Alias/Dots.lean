import ContentMounts.Proofs.Alias.Unflagged

/-!
# Paths with dots

The check that folds dots is made by spelling and asks for no file, so no answer of a platform and
no failure can take it away. The checks in front of it can only find an alias of their own. What is
resolved without an alias therefore has no dots (`Platform.Lexical.isProper_of_detect`), and what has
dots is flagged on every platform that leaves the two lexical questions to their usual answers
(`Platform.isAlias_of_dots`).
-/

namespace ContentMounts

namespace Platform

/-- A platform that folds dots by spelling and compares names byte for byte. Nothing is said of its
answers about files. -/
structure Lexical (plat : Platform) : Prop where
  normalize_eq : plat.normalize = Path.fold
  sameName_eq : plat.sameName = Path.sameSegments

lemma lexical_platform (h : Host) : h.platform.Lexical := ⟨rfl, rfl⟩

variable {plat : Platform}

/-- A path at the root is its own folded form, by its segments, where the check for dots finds
nothing. -/
lemma Lexical.isProper_of_dotAlias? (hplat : plat.Lexical) {raw absolute : Path}
    (habs : absolute.isAbsolute = true) (hnone : plat.dotAlias? raw absolute = none) :
    ∀ s ∈ absolute.segments, Name.IsProper s := by
  rw [dotAlias?, hplat.normalize_eq, hplat.sameName_eq] at hnone
  apply (Path.sameSegments_fold_iff habs).mp
  by_contra hdiffers
  rw [if_neg hdiffers] at hnone
  cases hnone

/-- What no check finds an alias of has no dots. -/
lemma Lexical.isProper_of_detect (hplat : plat.Lexical) {fromUri : Bool} {raw absolute : Path}
    (habs : absolute.isAbsolute = true) (hnone : plat.detect fromUri raw absolute = none) :
    ∀ s ∈ absolute.segments, Name.IsProper s :=
  hplat.isProper_of_dotAlias? habs (detect_eq_none_iff.mp hnone).2.1

/-- An address resolves to a path at the root. -/
lemma isAbsolute_of_resolveUri {input : Text} {r : Resolved} (hr : plat.resolveUri input = .ok r) :
    r.path.isAbsolute = true := by
  obtain ⟨raw, hraw, rfl⟩ := exists_literalPath?_of_resolveUri hr
  rw [Path.isAbsolute_collapse]
  exact Uri.isAbsolute_of_literalPath? hraw

/-- A path resolves to a path at the root, given that the working directory is at the root. -/
lemma isAbsolute_anchor {workingDir : Path} (hcwd : workingDir.isAbsolute = true) (raw : Path) :
    (anchor workingDir raw).isAbsolute = true := by
  unfold anchor
  split
  · next habs => rw [Path.isAbsolute_collapse, habs]
  · rw [Path.isAbsolute_collapse, Path.isAbsolute_join hcwd raw]

/-- The check for dots decides about a path with dots if no check before it does. -/
lemma Lexical.isAlias_of_hasDots (hplat : plat.Lexical) {fromUri : Bool} {raw absolute : Path}
    (habs : absolute.isAbsolute = true) (hdots : absolute.hasDots = true) :
    (⟨absolute, plat.detect fromUri raw absolute⟩ : Resolved).isAlias = true := by
  rw [Resolved.isAlias, Option.isSome_iff_ne_none]
  intro hnone
  have hproper := hplat.isProper_of_detect habs hnone
  rw [Path.hasDots_eq_false_iff.mpr hproper] at hdots
  cases hdots

/-- Whatever a platform answers about files and whichever of its probes fail, an address or a path
that resolves to a path with dots is flagged. -/
theorem isAlias_of_dots (hplat : plat.Lexical) {workingDir : Path}
    (hcwd : workingDir.isAbsolute = true) :
    (∀ input r, plat.resolveUri input = .ok r → r.path.hasDots = true → r.isAlias = true) ∧
      ∀ raw, (plat.resolvePath workingDir raw).path.hasDots = true →
        (plat.resolvePath workingDir raw).isAlias = true := by
  constructor
  · intro input r hr hdots
    have habs := isAbsolute_of_resolveUri hr
    obtain ⟨raw, -, rfl⟩ := exists_literalPath?_of_resolveUri hr
    exact hplat.isAlias_of_hasDots habs hdots
  · intro raw hdots
    exact hplat.isAlias_of_hasDots (isAbsolute_anchor hcwd raw) hdots

/-- A platform whose probes all fail. -/
def blind : Platform where
  realPath _ := .error .permissionDenied
  isSymlink _ := .error .permissionDenied
  readLink _ := .error .permissionDenied
  pathExists _ := false
  isDir _ := false

/-- An address with escaped dots above the root and a relative path that ends in a dot are flagged
although nothing can be found out about files. -/
theorem isAlias_of_dots_blind :
    blind.Lexical ∧
      (∃ r, blind.resolveUri "file:///%2E%2e/srv".toList = .ok r ∧ r.path.hasDots = true ∧
        r.isAlias = true) ∧
      (blind.resolvePath (Path.ofText "/srv".toList) (Path.ofText "www/.".toList)).isAlias = true := by
  have hlexical : blind.Lexical := ⟨rfl, rfl⟩
  have hcwd : (Path.ofText "/srv".toList).isAbsolute = true := by decide
  obtain ⟨haddress, hpath⟩ := isAlias_of_dots hlexical hcwd
  have hresolves : ∃ r, blind.resolveUri "file:///%2E%2e/srv".toList = .ok r ∧
      r.path = Path.ofText "/../srv".toList :=
    exists_of_map_eq_ok (eq_ok_of_toOption (by decide +kernel))
  obtain ⟨r, hr, hrpath⟩ := hresolves
  have hdots : r.path.hasDots = true := by
    rw [hrpath]
    decide +kernel
  exact ⟨hlexical, ⟨r, hr, hdots, haddress _ r hr hdots⟩, hpath _ (by decide +kernel)⟩

end Platform

end ContentMounts
