import Mathlib.Data.List.Basic
import ContentMounts.Text.Blank

/-!
# Texts trimmed at their ends

Characters are dropped from an end of a text as long as they are of a class. One that is not of the
class stays, with whatever stands on its other side.
-/

namespace ContentMounts

namespace Text

/-- A text keeps its end unless that is dropped. -/
lemma dropEndWhile_concat_of_not {p : Char → Bool} {c : Char} (h : p c = false) (t : Text) :
    dropEndWhile p (t ++ [c]) = t ++ [c] := by
  simp [dropEndWhile, h]

lemma dropEndWhile_concat {p : Char → Bool} {c : Char} (h : p c = true) (t : Text) :
    dropEndWhile p (t ++ [c]) = dropEndWhile p t := by
  simp [dropEndWhile, h]

lemma dropEndWhile_of_getLast? {p : Char → Bool} {t : Text} (h : t.getLast?.any p = false) :
    dropEndWhile p t = t := by
  rcases List.eq_nil_or_concat' t with rfl | ⟨before, c, rfl⟩
  · rfl
  · exact dropEndWhile_concat_of_not (by simpa using h) before

/-- What stands before something that is kept is kept. -/
lemma dropEndWhile_append_cons {p : Char → Bool} {c : Char} (h : p c = false) (t s : Text) :
    dropEndWhile p (t ++ c :: s) = t ++ c :: dropEndWhile p s := by
  rw [dropEndWhile, List.reverse_append, List.reverse_cons, List.append_assoc,
    List.dropWhile_append]
  split
  · next hnil =>
    have hs : dropEndWhile p s = [] := by
      rw [dropEndWhile, List.isEmpty_iff.mp hnil]
      rfl
    rw [hs, List.singleton_append, List.dropWhile_cons_of_neg (by simp [h])]
    simp
  · simp [dropEndWhile]

/-- What is left of the end of a text hides what stands in front of it. -/
lemma dropEndWhile_append {p : Char → Bool} {s : Text} (h : dropEndWhile p s ≠ []) (t : Text) :
    dropEndWhile p (t ++ s) = t ++ dropEndWhile p s := by
  have hrest : (s.reverse.dropWhile p).isEmpty = false := by
    simpa [dropEndWhile] using h
  rw [dropEndWhile, List.reverse_append, List.dropWhile_append, hrest, if_neg Bool.false_ne_true,
    List.reverse_append, List.reverse_reverse]
  rfl

/-- Where nothing is left of the end of a text, what stands in front of it is the end. -/
lemma dropEndWhile_append_of_nil {p : Char → Bool} {s : Text} (h : dropEndWhile p s = [])
    (t : Text) : dropEndWhile p (t ++ s) = dropEndWhile p t := by
  have hrest : (s.reverse.dropWhile p).isEmpty = true := by
    simpa [dropEndWhile] using h
  rw [dropEndWhile, List.reverse_append, List.dropWhile_append, hrest, if_pos rfl]
  rfl

lemma dropEndWhile_prefix_self (p : Char → Bool) (t : Text) : dropEndWhile p t <+: t := by
  have hreverse := List.reverse_prefix.mpr (List.dropWhile_suffix (l := t.reverse) p)
  rwa [List.reverse_reverse] at hreverse

lemma getLast?_dropEndWhile (p : Char → Bool) (t : Text) :
    (dropEndWhile p t).getLast?.any p = false := by
  have hstops := List.head?_dropWhile_not p t.reverse
  rw [dropEndWhile, List.getLast?_reverse]
  cases hhead : (t.reverse.dropWhile p).head? with
  | none => rfl
  | some c => simpa [hhead] using hstops

lemma dropEndWhile_eq_self_iff {p : Char → Bool} {t : Text} :
    dropEndWhile p t = t ↔ t.getLast?.any p = false := by
  refine ⟨fun heq => ?_, dropEndWhile_of_getLast?⟩
  have hlast := getLast?_dropEndWhile p t
  rwa [heq] at hlast

lemma mem_of_mem_dropEndWhile {p : Char → Bool} {t : Text} {c : Char}
    (hc : c ∈ dropEndWhile p t) : c ∈ t := (dropEndWhile_prefix_self p t).subset hc

/-- What is appended does not change what is left of the text before it. -/
lemma dropWhile_prefix_append (p : Char → Bool) (t s : Text) :
    t.dropWhile p <+: (t ++ s).dropWhile p := by
  rw [List.dropWhile_append]
  split
  · next hnil =>
    rw [List.isEmpty_iff.mp hnil]
    exact List.nil_prefix
  · exact List.prefix_append _ _

lemma length_dropEndWhile_le (p : Char → Bool) (t : Text) :
    (dropEndWhile p t).length ≤ t.length := (dropEndWhile_prefix_self p t).length_le

/-- A text that does not end in a blank is trimmed at its start only. -/
lemma trim_of_dropEndWhile {t : Text} (h : dropEndWhile isBlank t = t) :
    trim t = t.dropWhile isBlank := by
  rcases List.eq_nil_or_concat' t with rfl | ⟨before, c, rfl⟩
  · rfl
  · have hc : isBlank c = false := by
      rw [Bool.eq_false_iff]
      intro hblank
      have hlength := length_dropEndWhile_le isBlank before
      rw [← dropEndWhile_concat hblank, h, List.length_append, List.length_singleton] at hlength
      omega
    have hdrop : ∃ front, (before ++ [c]).dropWhile isBlank = front ++ [c] := by
      rw [List.dropWhile_append]
      split
      · exact ⟨[], by simp [hc]⟩
      · exact ⟨_, rfl⟩
    obtain ⟨front, hfront⟩ := hdrop
    rw [trim, trimWhile, hfront, dropEndWhile_concat_of_not hc]

/-- A blank at the end is trimmed. -/
lemma length_trim_concat_le {c : Char} (h : isBlank c = true) (t : Text) :
    (trim (t ++ [c])).length ≤ t.length := by
  unfold trim trimWhile
  rw [List.dropWhile_append]
  split
  · simp [h, dropEndWhile]
  · rw [dropEndWhile_concat h]
    exact Nat.le_trans (length_dropEndWhile_le isBlank _)
      (List.dropWhile_sublist isBlank).length_le

/-- A text behind a slash is trimmed at its end only. -/
lemma trim_slash_cons (t : Text) : trim ('/' :: t) = '/' :: dropEndWhile isBlank t := by
  have hslash : isBlank '/' = false := by decide
  unfold trim trimWhile
  rw [List.dropWhile_cons_of_neg (by simp [hslash])]
  simp [dropEndWhile, List.dropWhile_append, hslash]

end Text

end ContentMounts
