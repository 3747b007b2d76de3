import Mathlib.Tactic.Common
import ContentMounts.Alias.Resolve

/-!
# What resolving determines

The four checks for an alias are made one after the other, and the first one that finds an alias
decides. `detect_eq_none_iff` says what it means that none of them does, and `cases_of_detect` which
one has found an alias. An address that is resolved spells the path that it is resolved to
(`exists_literalPath?_of_resolveUri`).
-/

namespace ContentMounts

namespace Platform

variable {plat : Platform}

/-- No alias is found exactly if none of the checks finds one. -/
lemma detect_eq_none_iff {fromUri : Bool} {raw absolute : Path} :
    plat.detect fromUri raw absolute = none ↔
      (fromUri = true → plat.encodingAlias? raw absolute = none) ∧
        plat.dotAlias? raw absolute = none ∧ plat.linkAlias? absolute = none ∧
        plat.realAlias? absolute = none := by
  rw [detect]
  simp only [Option.orElse_eq_orElse, Option.orElse_eq_or, Option.or_eq_none_iff]
  cases fromUri <;> simp

/-- The check that has found an alias. -/
lemma cases_of_detect {fromUri : Bool} {raw absolute a : Path}
    (h : plat.detect fromUri raw absolute = some a) :
    (fromUri = true ∧ plat.encodingAlias? raw absolute = some a) ∨
      ((fromUri = true → plat.encodingAlias? raw absolute = none) ∧
        plat.dotAlias? raw absolute = some a) ∨
      (plat.dotAlias? raw absolute = none ∧ plat.linkAlias? absolute = some a) ∨
      plat.realAlias? absolute = some a := by
  rw [detect] at h
  simp only [Option.orElse_eq_orElse, Option.orElse_eq_or, Option.or_eq_some_iff] at h
  rcases h with hencoding | ⟨hencoding, hdot | ⟨hdot, hlink | ⟨-, hreal⟩⟩⟩
  · cases fromUri with
    | true => exact .inl ⟨rfl, hencoding⟩
    | false => cases hencoding
  · refine .inr (.inl ⟨?_, hdot⟩)
    rintro rfl
    exact hencoding
  · exact .inr (.inr (.inl ⟨hdot, hlink⟩))
  · exact .inr (.inr (.inr hreal))

/-- An address resolves to the path that it spells, with single separators. -/
lemma exists_literalPath?_of_resolveUri {input : Text} {r : Resolved}
    (hr : plat.resolveUri input = .ok r) :
    ∃ raw, Uri.literalPath? input = some raw ∧
      r = ⟨raw.collapse, plat.detect true raw raw.collapse⟩ := by
  obtain ⟨u, -, hr⟩ := exists_of_bind_eq_ok hr
  by_cases hfile : u.scheme = "file".toList
  · rw [if_neg (not_not_intro hfile)] at hr
    cases hraw : Uri.literalPath? input with
    | none =>
      rw [hraw] at hr
      cases hr
    | some raw =>
      rw [hraw] at hr
      exact ⟨raw, rfl, (Except.ok.inj hr).symm⟩
  · rw [if_pos hfile] at hr
    cases hr

end Platform

end ContentMounts
