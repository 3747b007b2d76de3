import Mathlib.Tactic.Common
import ContentMounts.Text.Basic

/-!
# The order of texts

Texts are listed by code point. The order is total, transitive and antisymmetric, so sorting a list
of texts without duplicates gives a list in which every text stands strictly before the next ones.
-/

namespace ContentMounts

namespace Text

/-- A text stands strictly before another one in alphabetical order. -/
def Before (a b : Text) : Prop := le a b = true ∧ a ≠ b

/-- Every text stands before or behind every other. -/
lemma le_total (a b : Text) : (le a b || le b a) = true := by
  induction a generalizing b with
  | nil => rfl
  | cons c r ih =>
    cases b with
    | nil => rfl
    | cons d s =>
      rcases Nat.lt_trichotomy c.toNat d.toNat with h | h | h
      · simp [le, h]
      · have hcd : c = d := Char.toNat_inj.mp h
        subst hcd
        simpa [le] using ih s
      · simp [le, h]

/-- The order of texts is transitive. -/
lemma le_trans {a b c : Text} (hab : le a b = true) (hbc : le b c = true) : le a c = true := by
  induction a generalizing b c with
  | nil => rfl
  | cons x r ih =>
    cases b with
    | nil => exact absurd hab (by simp [le])
    | cons y s =>
      cases c with
      | nil => exact absurd hbc (by simp [le])
      | cons z t =>
        simp only [le, Bool.or_eq_true, Bool.and_eq_true, decide_eq_true_eq, beq_iff_eq]
          at hab hbc ⊢
        rcases hab with hxy | ⟨rfl, hr⟩
        · rcases hbc with hyz | ⟨rfl, hs⟩
          · exact .inl (Nat.lt_trans hxy hyz)
          · exact .inl hxy
        · rcases hbc with hyz | ⟨rfl, hs⟩
          · exact .inl hyz
          · exact .inr ⟨rfl, ih hr hs⟩

/-- Sorting by a text puts every element before the later ones, if no two have the same text. -/
lemma pairwise_before_mergeSort {α : Type} (text : α → Text) {l : List α}
    (h : (l.map text).Nodup) :
    (l.mergeSort fun a b => le (text a) (text b)).Pairwise fun a b => Before (text a) (text b) := by
  have hle : (l.mergeSort fun a b => le (text a) (text b)).Pairwise
      fun a b => le (text a) (text b) = true := by
    apply List.pairwise_mergeSort
    · exact fun _ _ _ => le_trans
    · exact fun _ _ => le_total _ _
  have hne : (l.mergeSort fun a b => le (text a) (text b)).Pairwise
      fun a b => text a ≠ text b := by
    rw [← List.pairwise_map (R := fun a b => a ≠ b)]
    exact ((List.mergeSort_perm l _).map text).nodup_iff.mpr h
  exact hle.and hne

end Text

end ContentMounts
