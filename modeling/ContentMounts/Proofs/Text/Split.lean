import Mathlib.Algebra.Ring.Nat
import Mathlib.Data.List.Basic
import Mathlib.Tactic.Common
import ContentMounts.Text.Basic

/-!
# Lists split at a separator

Entry paths are texts and paths of the host are byte strings, but both are split at their
separators. The pieces of a list hold no separator, and they weigh as much as the list and one more
separator; the weight of the pieces that are kept bounds the length of what is joined from them.
Whatever can be counted of a list at one separator after the other is counted of its pieces and its
separators (`sum_map_splitOnP`). What a client asks for is taken by its names, the pieces that are
not empty (`namesOf`).

A text is cut at the first place where a mark stands in it, be it a character
(`cut?_singleton_eq_some_iff`) or two of them (`cut?_of_not_mark`), or at the last place where a
character does (`Text.cutLast?_append_cons`, `Text.eq_of_cutLast?`). If the second of two characters
separates pieces, the mark stands in the joined text where a piece that is not the last one ends in
the first of them (`infix_intercalate_iff`).
-/

namespace ContentMounts

/-- No piece of a split list holds the separator. -/
lemma notMem_of_mem_splitOn {α : Type} [BEq α] [LawfulBEq α] {x : α} {xs piece : List α}
    (h : piece ∈ xs.splitOn x) : x ∉ piece := by
  induction xs generalizing piece with
  | nil =>
    rw [List.splitOn_nil, List.mem_singleton] at h
    rw [h]
    exact List.not_mem_nil
  | cons y ys ih =>
    rw [List.splitOn_cons_eq_if_modifyHead] at h
    split at h
    · rcases List.mem_cons.mp h with rfl | hrest
      · exact List.not_mem_nil
      · exact ih hrest
    · next hne =>
      cases hsplit : ys.splitOn x with
      | nil => exact absurd hsplit (List.splitOn_ne_nil x ys)
      | cons first rest =>
        rw [hsplit, List.modifyHead_cons] at h
        rcases List.mem_cons.mp h with rfl | hrest
        · intro hmem
          rcases List.mem_cons.mp hmem with rfl | hfirst
          · exact hne (beq_self_eq_true x)
          · exact ih (hsplit ▸ List.mem_cons_self) hfirst
        · exact ih (hsplit ▸ List.mem_cons_of_mem first hrest)

/-- The names in a path. -/
def namesOf (sub : Text) : List Text := (sub.splitOn '/').filter (!·.isEmpty)

lemma ne_nil_of_mem_namesOf {sub name : Text} (h : name ∈ namesOf sub) :
    name ≠ [] ∧ '/' ∉ name := by
  obtain ⟨hpiece, hne⟩ := List.mem_filter.mp h
  exact ⟨by simpa using hne, notMem_of_mem_splitOn hpiece⟩

/-- What is joined before other pieces has a separator behind each piece. -/
lemma intercalate_append {α : Type} {x : α} (front : List (List α)) {rest : List (List α)}
    (h : rest ≠ []) :
    List.intercalate [x] (front ++ rest) =
      front.flatMap (· ++ [x]) ++ List.intercalate [x] rest := by
  induction front with
  | nil => rfl
  | cons piece front ih =>
    obtain ⟨next, tail, hnext⟩ := List.exists_cons_of_ne_nil
      (List.append_ne_nil_of_right_ne_nil front h)
    rw [List.cons_append, hnext, List.intercalate_cons_cons, ← hnext, ih, List.flatMap_cons]
    simp

/-- A piece joined behind others has a separator in front. -/
lemma intercalate_concat {α : Type} {x : α} {front : List (List α)} (h : front ≠ [])
    (piece : List α) :
    List.intercalate [x] (front ++ [piece]) = List.intercalate [x] front ++ x :: piece := by
  induction front with
  | nil => exact absurd rfl h
  | cons first rest ih =>
    cases rest with
    | nil => simp
    | cons second rest =>
      have hrest := ih (List.cons_ne_nil second rest)
      rw [List.cons_append] at hrest
      rw [List.cons_append, List.cons_append, List.intercalate_cons_cons, hrest,
        List.intercalate_cons_cons]
      simp

/-- Pieces of which only the last may be empty are joined as those that are not empty, but for a
separator in front of an empty one. -/
lemma intercalate_filter_or {α : Type} (x : α) {pieces : List (List α)}
    (h : [] ∉ pieces.dropLast) :
    List.intercalate [x] pieces = List.intercalate [x] (pieces.filter (!·.isEmpty)) ∨
      pieces.filter (!·.isEmpty) ≠ [] ∧ List.intercalate [x] pieces =
        List.intercalate [x] (pieces.filter (!·.isEmpty)) ++ [x] := by
  rcases List.eq_nil_or_concat' pieces with rfl | ⟨init, last, rfl⟩
  · exact .inl rfl
  · rw [List.dropLast_concat] at h
    have hinit : init.filter (!·.isEmpty) = init := by
      rw [List.filter_eq_self]
      intro piece hpiece
      simpa using fun hnil : piece = [] => h (hnil ▸ hpiece)
    rw [List.filter_append, hinit]
    cases last with
    | cons c last => exact .inl rfl
    | nil =>
      rw [List.filter_cons_of_neg (by simp), List.filter_nil, List.append_nil]
      by_cases hne : init = []
      · exact .inl (by simp [hne])
      · exact .inr ⟨hne, intercalate_concat hne []⟩

/-- What stands in a joined list is the separator or stands in a piece. -/
lemma eq_or_exists_of_mem_intercalate {α : Type} {x y : α} {pieces : List (List α)}
    (hy : y ∈ List.intercalate [x] pieces) : y = x ∨ ∃ piece ∈ pieces, y ∈ piece := by
  induction pieces with
  | nil => cases hy
  | cons first rest ih =>
    cases rest with
    | nil =>
      rw [List.intercalate_singleton] at hy
      exact .inr ⟨first, List.mem_cons_self, hy⟩
    | cons second rest =>
      rw [List.intercalate_cons_cons, List.mem_append, List.mem_append, List.mem_singleton] at hy
      rcases hy with (hfirst | hsep) | hrest
      · exact .inr ⟨first, List.mem_cons_self, hfirst⟩
      · exact .inl hsep
      · rcases ih hrest with hsep | ⟨piece, hmem, hpiece⟩
        · exact .inl hsep
        · exact .inr ⟨piece, List.mem_cons_of_mem first hmem, hpiece⟩

/-- What stands in a piece between separators stands in the list. -/
lemma mem_of_mem_splitOnP {α : Type} {p : α → Bool} {y : α} {xs piece : List α}
    (hpiece : piece ∈ xs.splitOnP p) (hy : y ∈ piece) : y ∈ xs := by
  induction xs generalizing piece with
  | nil =>
    rw [List.splitOnP_nil, List.mem_singleton] at hpiece
    rw [hpiece] at hy
    exact hy
  | cons x xs ih =>
    rw [List.splitOnP_cons_eq_if_modifyHead] at hpiece
    split at hpiece
    · rcases List.mem_cons.mp hpiece with rfl | hrest
      · cases hy
      · exact List.mem_cons_of_mem x (ih hrest hy)
    · obtain ⟨first, rest, hsplit⟩ := List.exists_cons_of_ne_nil (List.splitOnP_ne_nil p xs)
      rw [hsplit, List.modifyHead_cons] at hpiece
      rcases List.mem_cons.mp hpiece with rfl | hrest
      · rcases List.mem_cons.mp hy with rfl | hfirst
        · exact List.mem_cons_self
        · exact List.mem_cons_of_mem x (ih (hsplit ▸ List.mem_cons_self) hfirst)
      · exact List.mem_cons_of_mem x (ih (hsplit ▸ List.mem_cons_of_mem first hrest) hy)

/-- What stands in a piece of a split list stands in the list. -/
lemma mem_of_mem_splitOn {α : Type} [BEq α] {x y : α} {xs piece : List α}
    (hpiece : piece ∈ xs.splitOn x) (hy : y ∈ piece) : y ∈ xs :=
  mem_of_mem_splitOnP hpiece hy

/-- Pieces without separators are those of the list that is joined from them. -/
lemma splitOnP_intercalate {α : Type} {p : α → Bool} {x : α} (hx : p x = true)
    {pieces : List (List α)} (h : ∀ piece ∈ pieces, ∀ y ∈ piece, p y = false)
    (hne : pieces ≠ []) : (List.intercalate [x] pieces).splitOnP p = pieces := by
  induction pieces with
  | nil => exact absurd rfl hne
  | cons first rest ih =>
    have hfirst := h first List.mem_cons_self
    cases rest with
    | nil => rw [List.intercalate_singleton, List.splitOnP_eq_singleton hfirst]
    | cons second rest =>
      rw [List.intercalate_cons_cons, List.append_assoc, List.singleton_append,
        List.splitOnP_append_cons_of_forall_mem hfirst x hx,
        ih (fun piece hpiece => h piece (List.mem_cons_of_mem first hpiece))
          (List.cons_ne_nil second rest)]

/-- Pieces with a separator in front of each are the joined list with one in front. -/
lemma flatten_map_cons {α : Type} (x : α) {pieces : List (List α)} (h : pieces ≠ []) :
    (pieces.map (x :: ·)).flatten = x :: List.intercalate [x] pieces := by
  induction pieces with
  | nil => exact absurd rfl h
  | cons first rest ih =>
    cases rest with
    | nil => simp
    | cons second rest =>
      rw [List.map_cons, List.flatten_cons, ih (List.cons_ne_nil second rest),
        List.intercalate_cons_cons]
      simp

/-- What the pieces of a list weigh: their characters and a separator for each. -/
def weight {α : Type} : List (List α) → Nat
  | [] => 0
  | p :: pieces => p.length + 1 + weight pieces

@[simp] lemma weight_nil {α : Type} : weight ([] : List (List α)) = 0 := rfl

@[simp] lemma weight_cons {α : Type} (p : List α) (pieces : List (List α)) :
    weight (p :: pieces) = p.length + 1 + weight pieces := rfl

lemma weight_append {α : Type} (pieces more : List (List α)) :
    weight (pieces ++ more) = weight pieces + weight more := by
  induction pieces with
  | nil => simp
  | cons p rest ih =>
    rw [List.cons_append, weight_cons, ih, weight_cons]
    omega

@[simp] lemma weight_reverse {α : Type} (pieces : List (List α)) :
    weight pieces.reverse = weight pieces := by
  induction pieces with
  | nil => rfl
  | cons p rest ih =>
    rw [List.reverse_cons, weight_append, ih, weight_cons, weight_cons, weight_nil]
    omega

lemma weight_filter_le {α : Type} (keep : List α → Bool) (pieces : List (List α)) :
    weight (pieces.filter keep) ≤ weight pieces := by
  induction pieces with
  | nil => exact Nat.le_refl _
  | cons p rest ih =>
    rw [List.filter_cons, weight_cons]
    split
    · exact Nat.add_le_add_left ih _
    · exact Nat.le_add_left_of_le ih

lemma length_intercalate {α : Type} (x : α) {pieces : List (List α)} (h : pieces ≠ []) :
    (List.intercalate [x] pieces).length + 1 = weight pieces := by
  induction pieces with
  | nil => exact absurd rfl h
  | cons p rest ih =>
    cases rest with
    | nil => simp
    | cons q rest =>
      have hrest := ih (List.cons_ne_nil q rest)
      rw [List.intercalate_cons_cons, weight_cons, ← hrest]
      simp only [List.length_append, List.length_singleton]
      omega

/-- The pieces of a split list weigh as much as the list and one separator. -/
lemma weight_splitOn {α : Type} [BEq α] [LawfulBEq α] (x : α) (xs : List α) :
    weight (xs.splitOn x) = xs.length + 1 := by
  rw [← length_intercalate x (List.splitOn_ne_nil x xs), List.intercalate_splitOn]

/-- A list is split in one way by classes that agree on it. -/
lemma splitOnP_congr {α : Type} {p q : α → Bool} {xs : List α} (h : ∀ x ∈ xs, p x = q x) :
    xs.splitOnP p = xs.splitOnP q := by
  induction xs with
  | nil => rfl
  | cons x xs ih =>
    rw [List.splitOnP_cons_eq_if_modifyHead, List.splitOnP_cons_eq_if_modifyHead,
      h x List.mem_cons_self, ih fun y hy => h y (List.mem_cons_of_mem x hy)]

/-- What is left of a list without its separators is what its pieces hold. -/
lemma length_flatten_splitOn {α : Type} [BEq α] [LawfulBEq α] (x : α) (xs : List α) :
    (xs.splitOn x).flatten.length = xs.countP (· != x) := by
  induction xs with
  | nil => simp
  | cons y ys ih =>
    rw [List.splitOn_cons_eq_if_modifyHead, List.countP_cons]
    obtain ⟨first, rest, hsplit⟩ := List.exists_cons_of_ne_nil (List.splitOn_ne_nil x ys)
    rw [hsplit] at ih ⊢
    rw [← ih]
    by_cases hy : (y == x) = true <;> simp [hy, bne]

/-- What is counted of a list one by one at its separators is the sum of what is counted of its
pieces and of the separators. -/
lemma sum_map_splitOnP {α : Type} {p : α → Bool} {g : List α → Nat} {e : α → Nat}
    (h : ∀ xs c ys, p c = true → g (xs ++ c :: ys) = g xs + e c + g ys) (xs : List α) :
    ((xs.splitOnP p).map g).sum + ((xs.filter p).map e).sum = g xs := by
  suffices hfront : ∀ front, (((xs.splitOnP p).modifyHead (front ++ ·)).map g).sum +
      ((xs.filter p).map e).sum = g (front ++ xs) by
    have hnone := hfront []
    obtain ⟨first, rest, hsplit⟩ := List.exists_cons_of_ne_nil (List.splitOnP_ne_nil p xs)
    rw [hsplit] at hnone ⊢
    exact hnone
  induction xs with
  | nil => simp
  | cons c xs ih =>
    intro front
    obtain ⟨first, rest, hsplit⟩ := List.exists_cons_of_ne_nil (List.splitOnP_ne_nil p xs)
    rw [List.splitOnP_cons_eq_if_modifyHead]
    by_cases hc : p c = true
    · have hnone := ih []
      rw [hsplit] at hnone
      rw [if_pos hc, hsplit, List.filter_cons_of_pos hc, h front c xs hc]
      simp only [List.modifyHead_cons, List.nil_append, List.append_nil, List.map_cons,
        List.sum_cons] at hnone ⊢
      omega
    · have hnext := ih (front ++ [c])
      rw [hsplit] at hnext
      rw [if_neg hc, hsplit, List.filter_cons_of_neg hc]
      simpa using hnext

/-! ## Marks -/

section Marks

variable {α : Type} {m n : α}

/-- A list that does not hold the start of a mark may stand in front of it. -/
lemma infix_append_of_notMem {xs ys : List α} (h : m ∉ xs) :
    [m, n] <:+: xs ++ ys ↔ [m, n] <:+: ys := by
  induction xs with
  | nil => rfl
  | cons x xs ih =>
    rw [List.mem_cons, not_or] at h
    rw [List.cons_append, List.infix_cons_iff, ih h.2, or_iff_right]
    exact fun hstart => h.1 (List.cons_prefix_cons.mp hstart).1

/-- A mark stands over the end of a piece, or behind it. -/
lemma infix_append_cons_iff (hne : m ≠ n) {xs ys : List α} (h : n ∉ xs) :
    [m, n] <:+: xs ++ n :: ys ↔ xs.getLast? = some m ∨ [m, n] <:+: ys := by
  induction xs with
  | nil =>
    rw [List.nil_append, List.infix_cons_iff]
    simp [List.cons_prefix_cons, hne]
  | cons x xs ih =>
    rw [List.mem_cons, not_or] at h
    rw [List.cons_append, List.infix_cons_iff, ih h.2]
    cases xs with
    | nil => simp [List.cons_prefix_cons, eq_comm]
    | cons y xs =>
      have hy : n ≠ y := fun heq => h.2 (heq ▸ List.mem_cons_self)
      simp [List.cons_prefix_cons, hy]

/-- A mark whose second part separates pieces stands where a piece before the last ends in the
first one. -/
lemma infix_intercalate_iff (hne : m ≠ n) {pieces : List (List α)}
    (h : ∀ piece ∈ pieces, n ∉ piece) :
    [m, n] <:+: List.intercalate [n] pieces ↔
      ∃ piece ∈ pieces.dropLast, piece.getLast? = some m := by
  induction pieces with
  | nil => simp
  | cons p rest ih =>
    have hp := h p List.mem_cons_self
    cases rest with
    | nil =>
      rw [List.intercalate_singleton]
      constructor
      · intro hin
        exact absurd (hin.subset (List.mem_cons_of_mem m List.mem_cons_self)) hp
      · rintro ⟨piece, hpiece, -⟩
        cases hpiece
    | cons q rest =>
      rw [List.intercalate_cons_cons, List.append_assoc, List.singleton_append,
        infix_append_cons_iff hne hp,
        ih fun piece hpiece => h piece (List.mem_cons_of_mem p hpiece), List.dropLast_cons_cons]
      simp only [List.mem_cons, exists_eq_or_imp]

/-- Two separators stand together, the first one in front of all pieces, exactly where a piece
before the last is empty. -/
lemma infix_cons_intercalate_iff {pieces : List (List α)} (h : ∀ piece ∈ pieces, m ∉ piece) :
    [m, m] <:+: m :: List.intercalate [m] pieces ↔ [] ∈ pieces.dropLast := by
  induction pieces with
  | nil => simp [List.infix_cons_iff, List.cons_prefix_cons]
  | cons p rest ih =>
    have hp := h p List.mem_cons_self
    cases rest with
    | nil =>
      rw [List.intercalate_singleton, List.infix_cons_iff]
      constructor
      · rintro (hstart | hin)
        · exact absurd ((List.cons_prefix_cons.mp hstart).2.subset List.mem_cons_self) hp
        · exact absurd (hin.subset List.mem_cons_self) hp
      · rintro ⟨⟩
    | cons q rest =>
      have hstart : [m, m] <+: m :: (p ++ m :: List.intercalate [m] (q :: rest)) ↔ p = [] := by
        cases p with
        | nil => simp [List.cons_prefix_cons]
        | cons x p =>
          have hx : m ≠ x := fun heq => hp (heq ▸ List.mem_cons_self)
          simp [List.cons_prefix_cons, hx]
      rw [List.intercalate_cons_cons, List.append_assoc, List.singleton_append,
        List.infix_cons_iff, hstart, infix_append_of_notMem hp,
        ih fun piece hpiece => h piece (List.mem_cons_of_mem p hpiece), List.dropLast_cons_cons,
        List.mem_cons, eq_comm]

end Marks

/-- A text is cut at the first place where a character stands in it. -/
lemma cut?_singleton_eq_some_iff {m : Char} {t before behind : Text} :
    Text.cut? [m] t = some (before, behind) ↔ t = before ++ m :: behind ∧ m ∉ before := by
  induction t generalizing before with
  | nil => simp [Text.cut?]
  | cons c t ih =>
    rw [Text.cut?]
    by_cases hc : m = c
    · rw [if_pos (by simp [hc])]
      cases before with
      | nil => simp [hc]
      | cons d before => simp [hc]; grind
    · rw [if_neg (by simp [hc])]
      cases before with
      | nil => simp; grind
      | cons d before =>
        simp [ih]
        grind

/-- A text is cut at a mark that does not stand in front of it. -/
lemma cut?_of_not_mark {m n : Char} (hne : m ≠ n) {t rest : Text} (h : ¬[m, n] <:+: t) :
    Text.cut? [m, n] (t ++ m :: n :: rest) = some (t, rest) := by
  induction t with
  | nil => simp [Text.cut?]
  | cons c t ih =>
    rw [List.infix_cons_iff, not_or] at h
    have hstart : [m, n].isPrefixOf (c :: (t ++ m :: n :: rest)) = false := by
      rw [Bool.eq_false_iff, ne_eq, List.isPrefixOf_iff_prefix, List.cons_prefix_cons, not_and]
      rintro rfl hnext
      cases t with
      | nil => exact hne (List.cons_prefix_cons.mp hnext).1.symm
      | cons d t =>
        obtain ⟨rfl, -⟩ := List.cons_prefix_cons.mp hnext
        exact h.1 (List.cons_prefix_cons.mpr ⟨rfl, List.cons_prefix_cons.mpr
          ⟨rfl, List.nil_prefix⟩⟩)
    rw [List.cons_append, Text.cut?, hstart, if_neg Bool.false_ne_true, ih h.2]
    rfl

/-- A text in which a mark stands is cut before its end. -/
lemma exists_cut?_of_mark {m n : Char} {t : Text} (h : [m, n] <:+: t) (rest : Text) :
    ∃ before behind, behind <:+ t ∧
      Text.cut? [m, n] (t ++ rest) = some (before, behind ++ rest) := by
  induction t with
  | nil => simp at h
  | cons c t ih =>
    rw [List.cons_append, Text.cut?]
    cases hstart : [m, n].isPrefixOf (c :: (t ++ rest)) with
    | true =>
      cases t with
      | nil => exact absurd h.length_le (by simp)
      | cons d t =>
        exact ⟨[], t, (List.suffix_cons d t).trans (List.suffix_cons c _), rfl⟩
    | false =>
      rw [List.infix_cons_iff] at h
      have hlater : [m, n] <:+: t := by
        refine h.resolve_left fun hfirst => ?_
        rw [Bool.eq_false_iff, ne_eq, List.isPrefixOf_iff_prefix] at hstart
        exact hstart (hfirst.trans (List.prefix_append (c :: t) rest))
      obtain ⟨before, behind, hsuffix, hcut⟩ := ih hlater
      refine ⟨c :: before, behind, hsuffix.trans (List.suffix_cons c t), ?_⟩
      rw [if_neg Bool.false_ne_true, hcut]
      rfl

/-! ## Last places -/

namespace Text

lemma cutLast?_of_notMem {c : Char} {t : Text} (h : c ∉ t) : cutLast? c t = none := by
  induction t with
  | nil => rfl
  | cons d r ih =>
    rw [List.mem_cons, not_or] at h
    rw [cutLast?, ih h.2]
    dsimp only
    rw [if_neg (Ne.symm h.1)]

/-- A text is cut at a character that does not stand behind. -/
lemma cutLast?_append_cons {c : Char} {behind : Text} (h : c ∉ behind) (before : Text) :
    cutLast? c (before ++ c :: behind) = some (before, behind) := by
  induction before with
  | nil =>
    rw [List.nil_append, cutLast?, cutLast?_of_notMem h]
    dsimp only
    rw [if_pos rfl]
  | cons d r ih => rw [List.cons_append, cutLast?, ih]

/-- What is cut off the end of a text does not hold the character. -/
lemma notMem_of_cutLast? {c : Char} {t : Text} :
    match cutLast? c t with
    | some (_, behind) => c ∉ behind
    | none => c ∉ t := by
  induction t with
  | nil => exact List.not_mem_nil
  | cons d r ih =>
    rw [cutLast?]
    cases hcut : cutLast? c r with
    | some parts =>
      rw [hcut] at ih
      exact ih
    | none =>
      rw [hcut] at ih
      dsimp only at ih ⊢
      by_cases hd : d = c
      · rw [if_pos hd]
        exact ih
      · rw [if_neg hd]
        dsimp only
        rw [List.mem_cons, not_or]
        exact ⟨Ne.symm hd, ih⟩

/-- A text is cut at the character between its parts. -/
lemma eq_of_cutLast? {c : Char} {t before behind : Text}
    (h : cutLast? c t = some (before, behind)) : t = before ++ c :: behind := by
  induction t generalizing before with
  | nil => cases h
  | cons d t ih =>
    unfold cutLast? at h
    split at h
    · next before' behind' hcut =>
      cases h
      rw [ih hcut, List.cons_append]
    · split at h
      · next hd =>
        cases h
        rw [hd, List.nil_append]
      · cases h

end Text

end ContentMounts
