import ContentMounts.Host.Error
import ContentMounts.Proofs.Text.Percent
import ContentMounts.Proofs.Text.Trim
import ContentMounts.Url.Parse

/-!
# Reading an address behind its scheme

An address is read in two steps: its scheme, in lower case (`IsScheme`), and then what stands behind
the colon (`readRest`). An address is therefore what the rest is read as (`parse_append`), and its
scheme is the one it was written with, if that is in lower case (`parse_of_isScheme`).
-/

namespace ContentMounts

namespace Url

/-! ## Schemes -/

/-- A scheme as it is written in an address that was read. -/
structure IsScheme (s : Text) : Prop where
  head : s.head?.any Char.isAlpha = true
  all : s.all isSchemeChar = true
  lower : Text.lower s = s

/-- What holds of the ASCII characters one by one holds of every character below 128. -/
lemma of_forall_ascii {P : Char → Prop} (h : ∀ n < 0x80, P (Char.ofNat n)) {c : Char}
    (hc : c.toNat < 0x80) : P c :=
  Char.ofNat_toNat c ▸ h c.toNat hc

lemma toNat_lt_of_isSchemeChar {c : Char} (h : isSchemeChar c = true) : c.toNat < 0x80 := by
  have hclasses : isSchemeChar c =
      (decide (c.val ≥ 'A'.val ∧ c.val ≤ 'Z'.val) || (c.val ≥ 'a'.val && c.val ≤ 'z'.val) ||
        (c.val ≥ '0'.val && c.val ≤ '9'.val) || c == '+' || c == '-' || c == '.') := rfl
  simp only [hclasses, Bool.or_eq_true, Bool.and_eq_true, decide_eq_true_eq, beq_iff_eq,
    UInt32.le_iff_toNat_le] at h
  have hval : c.val.toNat < 0x80 := by
    rcases h with (((((h | h) | h) | rfl) | rfl) | rfl)
    · exact Nat.lt_of_le_of_lt h.2 (by decide)
    · exact Nat.lt_of_le_of_lt h.2 (by decide)
    · exact Nat.lt_of_le_of_lt h.2 (by decide)
    all_goals decide
  exact hval

/-- The characters of a scheme: they are not trimmed, none of them is the mark behind a scheme or
in front of an entry, and putting them into lower case once is enough. -/
structure SchemeChar (c : Char) : Prop where
  ne_colon : c ≠ ':'
  ne_bang : c ≠ '!'
  not_blank : ¬c ≤ ' '
  not_break : isBreak c = false
  not_end : endsPath c = false
  lower : isSchemeChar c.toLower = true
  lower_lower : c.toLower.toLower = c.toLower
  lower_isAlpha : c.toLower.isAlpha = c.isAlpha

lemma schemeChar_of_isSchemeChar {c : Char} (h : isSchemeChar c = true) : SchemeChar c := by
  have hfacts : ∀ n < 0x80, isSchemeChar (Char.ofNat n) = true →
      (Char.ofNat n ≠ ':' ∧ Char.ofNat n ≠ '!' ∧ ¬Char.ofNat n ≤ ' ' ∧
        isBreak (Char.ofNat n) = false ∧ endsPath (Char.ofNat n) = false) ∧
        isSchemeChar (Char.ofNat n).toLower = true ∧
        (Char.ofNat n).toLower.toLower = (Char.ofNat n).toLower ∧
        (Char.ofNat n).toLower.isAlpha = (Char.ofNat n).isAlpha := by
    decide
  obtain ⟨⟨hcolon, hbang, hblank, hbreak, hend⟩, hlower, htwice, halpha⟩ :=
    of_forall_ascii (P := fun c => isSchemeChar c = true → (c ≠ ':' ∧ c ≠ '!' ∧ ¬c ≤ ' ' ∧
      isBreak c = false ∧ endsPath c = false) ∧ isSchemeChar c.toLower = true ∧
      c.toLower.toLower = c.toLower ∧ c.toLower.isAlpha = c.isAlpha) hfacts
      (toNat_lt_of_isSchemeChar h) h
  exact ⟨hcolon, hbang, hblank, hbreak, hend, hlower, htwice, halpha⟩

lemma isScheme_lower {t : Text} (hhead : t.head?.any Char.isAlpha = true)
    (hall : t.all isSchemeChar = true) : IsScheme (Text.lower t) := by
  have hchars : ∀ c ∈ t, SchemeChar c := fun c hc =>
    schemeChar_of_isSchemeChar (List.all_eq_true.mp hall c hc)
  constructor
  · cases t with
    | nil => cases hhead
    | cons c t =>
      rw [List.head?_cons, Option.any_some] at hhead
      rw [Text.lower, List.map_cons, List.head?_cons, Option.any_some,
        (hchars c List.mem_cons_self).lower_isAlpha]
      exact hhead
  · simp only [Text.lower, List.all_map, List.all_eq_true, Function.comp_apply]
    exact fun c hc => (hchars c hc).lower
  · simp only [Text.lower, List.map_map, List.map_inj_left, Function.comp_apply]
    exact fun c hc => (hchars c hc).lower_lower

/-- Where there are no tabs and line ends none are left out. -/
lemma withoutBreaks_eq_self {t : Text} (h : ∀ c ∈ t, isBreak c = false) : withoutBreaks t = t := by
  rw [withoutBreaks, List.filter_eq_self]
  intro c hc
  rw [h c hc]
  rfl

section

variable {s : Text} (hhead : s.head?.any Char.isAlpha = true) (hall : s.all isSchemeChar = true)

include hall

lemma schemeChar_of_mem {c : Char} (hc : c ∈ s) : SchemeChar c :=
  schemeChar_of_isSchemeChar (List.all_eq_true.mp hall c hc)

include hhead

/-- A scheme ends at its colon, in whatever case it is written. -/
lemma splitScheme?_append (rest : Text) :
    splitScheme? (s ++ ':' :: rest) = some (Text.lower s, rest) := by
  have hne : ∀ c ∈ s, (c != ':') = true := fun c hc => by
    simpa using (schemeChar_of_mem hall hc).ne_colon
  have htake : (s ++ ':' :: rest).takeWhile (· != ':') = s := by
    rw [List.takeWhile_append_of_pos hne, List.takeWhile_cons_of_neg (by simp), List.append_nil]
  have hdrop : (s ++ ':' :: rest).dropWhile (· != ':') = ':' :: rest := by
    rw [List.dropWhile_append_of_pos hne, List.dropWhile_cons_of_neg (by simp)]
  have hbreaks : withoutBreaks s = s :=
    withoutBreaks_eq_self fun c hc => (schemeChar_of_mem hall hc).not_break
  unfold splitScheme?
  rw [htake, hdrop, hbreaks]
  dsimp only
  rw [hhead, hall, Bool.and_self, if_pos rfl]

/-- An address is what stands behind its colon is read as, but for the blanks at the end. -/
theorem parse_append (rest : Text) :
    parse (s ++ ':' :: rest) = readRest (Text.lower s) (Text.dropEndWhile (· ≤ ' ') rest) := by
  have htrim : Text.trimWhile (· ≤ ' ') (s ++ ':' :: rest) =
      s ++ ':' :: Text.dropEndWhile (· ≤ ' ') rest := by
    have hstart : (s ++ ':' :: rest).dropWhile (· ≤ ' ') = s ++ ':' :: rest := by
      cases s with
      | nil => cases hhead
      | cons c s =>
        have hc := (schemeChar_of_mem hall List.mem_cons_self).not_blank
        rw [List.cons_append, List.dropWhile_cons_of_neg (by simpa using hc)]
    rw [Text.trimWhile, hstart, Text.dropEndWhile_append_cons (by decide)]
  rw [parse, htrim, splitScheme?_append hhead hall]

end

namespace IsScheme

variable {s : Text}

lemma schemeChar (h : IsScheme s) {c : Char} (hc : c ∈ s) : SchemeChar c :=
  schemeChar_of_mem h.all hc

end IsScheme

/-! ## Behind the scheme -/

/-- An address whose scheme is written in lower case is what stands behind its colon is read as,
but for the blanks at the end. -/
theorem parse_of_isScheme {s : Text} (h : IsScheme s) (rest : Text) :
    parse (s ++ ':' :: rest) = readRest s (Text.dropEndWhile (· ≤ ' ') rest) := by
  rw [parse_append h.head h.all, h.lower]

/-- What was read has a scheme in lower case. -/
lemma isScheme_of_splitScheme? {t scheme rest : Text}
    (h : splitScheme? t = some (scheme, rest)) : IsScheme scheme := by
  unfold splitScheme? at h
  dsimp only at h
  split at h
  · cases h
  · split at h
    · next hwritten =>
      cases h
      obtain ⟨hhead, hall⟩ := Bool.and_eq_true _ _ |>.mp hwritten
      exact isScheme_lower hhead hall
    · cases h

/-- A text that was read has a scheme in lower case, and the address is what stands behind it is
read as. -/
lemma exists_readRest_of_parse {input : Text} {u : Url} (h : parse input = .ok u) :
    IsScheme u.scheme ∧ ∃ rest, readRest u.scheme rest = .ok u := by
  unfold parse at h
  split at h
  · cases h
  · next scheme rest hsplit =>
    have hscheme : u.scheme = scheme := by
      obtain ⟨⟨a, p⟩, -, rfl⟩ := exists_of_map_eq_ok h
      rfl
    rw [hscheme]
    exact ⟨isScheme_of_splitScheme? hsplit, rest, h⟩

end Url

end ContentMounts
