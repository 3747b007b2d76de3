import Mathlib.Tactic.Common
import ContentMounts.Text.Utf8

/-!
# Reading UTF-8

A text is read from its own bytes (`decodeLossy_encode`). A character has one to four of them, and
each length is a lemma of its own: the first byte opens the character, the range for the second one
leaves out what a shorter form would have done for, surrogates and what is beyond the last
character, and every byte behind the first adds six bits. No character but an ASCII one has an ASCII
byte (`toNat_eq_of_mem_utf8EncodeChar`).
-/

namespace ContentMounts

namespace Utf8

lemma utf8EncodeChar_of_lt {c : Char} (h : c.toNat < 0x80) :
    String.utf8EncodeChar c = [UInt8.ofNat c.toNat] := by
  have hle : c.toNat ≤ 0x7F := by omega
  simp [String.utf8EncodeChar, hle]

lemma encode_cons (c : Char) (t : Text) : encode (c :: t) = String.utf8EncodeChar c ++ encode t :=
  List.flatMap_cons

lemma encode_append (t s : Text) : encode (t ++ s) = encode t ++ encode s := List.flatMap_append

/-- An ASCII byte stands for its own character only. -/
lemma toNat_eq_of_mem_utf8EncodeChar {c : Char} {b : UInt8} (hb : b ∈ String.utf8EncodeChar c)
    (hlow : b.toNat < 0x80) : c.toNat = b.toNat := by
  rcases Nat.lt_or_ge c.toNat 0x80 with hc | hc
  · rw [utf8EncodeChar_of_lt hc, List.mem_singleton] at hb
    rw [hb, UInt8.toNat_ofNat', Nat.mod_eq_of_lt (by omega)]
  · exfalso
    have hle : ¬c.toNat ≤ 0x7F := by omega
    simp only [String.utf8EncodeChar, Char.toNat_val, hle, if_false] at hb
    split at hb
    · simp only [List.mem_cons, List.not_mem_nil, or_false] at hb
      rcases hb with rfl | rfl <;> simp [UInt8.toNat_add] at hlow <;> omega
    · split at hb
      · simp only [List.mem_cons, List.not_mem_nil, or_false] at hb
        rcases hb with rfl | rfl | rfl <;> simp [UInt8.toNat_add] at hlow <;> omega
      · simp only [List.mem_cons, List.not_mem_nil, or_false] at hb
        rcases hb with rfl | rfl | rfl | rfl <;> simp [UInt8.toNat_add] at hlow <;> omega

lemma encode_eq_nil_iff {t : Text} : encode t = [] ↔ t = [] := by
  constructor
  · intro h
    cases t with
    | nil => rfl
    | cons c t =>
      rw [encode_cons, List.append_eq_nil_iff] at h
      exact absurd h.1 String.utf8EncodeChar_ne_nil
  · rintro rfl
    rfl

/-- Inside a character there is always something to report. -/
lemma scan_some_ne_nil (p : Pending) (bs : Bytes) : scan (some p) bs ≠ [] := by
  induction bs generalizing p with
  | nil => simp [scan]
  | cons b rest ih =>
    unfold scan
    split
    · dsimp only
      split
      · simp
      · exact ih _
    · simp

/-- Bytes are read as at least one character. -/
lemma decodeLossy_ne_nil {bs : Bytes} (h : bs ≠ []) : decodeLossy bs ≠ [] := by
  cases bs with
  | nil => exact absurd rfl h
  | cons b rest =>
    have hscan : scan none (b :: rest) ≠ [] := by
      unfold scan
      split
      · simp
      · exact scan_some_ne_nil _ _
      · simp
    simpa [decodeLossy] using hscan

/-! ## The bytes of one character -/

/-- Bytes are in order as their numbers are. -/
lemma ofNat_between (low high : Nat) {n : Nat} (h : low ≤ n ∧ n ≤ high)
    (hhigh : high < UInt8.size) :
    UInt8.ofNat low ≤ UInt8.ofNat n ∧ UInt8.ofNat n ≤ UInt8.ofNat high := by
  have hn := Nat.lt_of_le_of_lt h.2 hhigh
  have hlow := Nat.lt_of_le_of_lt h.1 hn
  exact ⟨(UInt8.ofNat_le_iff_le hlow hn).mpr h.1, (UInt8.ofNat_le_iff_le hn hhigh).mpr h.2⟩

/-- A byte behind the first of a character holds six bits. -/
lemma tail_spec (n : Nat) :
    (0x80 ≤ UInt8.ofNat (n % 64 + 0x80) ∧ UInt8.ofNat (n % 64 + 0x80) ≤ 0xBF) ∧
      (UInt8.ofNat (n % 64 + 0x80)).toNat % 64 = n % 64 := by
  refine ⟨ofNat_between 0x80 0xBF (by omega) (by decide), ?_⟩
  rw [UInt8.toNat_ofNat']
  omega

section

variable {bits missing : Nat} {low high b : UInt8} (hb : low ≤ b ∧ b ≤ high) (rest : Bytes)

include hb

/-- The last byte that is expected completes the character. -/
lemma scan_last : scan (some ⟨bits, 1, low, high⟩) (b :: rest) =
    some (Char.ofNat (bits * 64 + b.toNat % 64)) :: scan none rest := by
  rw [scan, if_pos hb]
  exact if_pos rfl

/-- Any other byte that is expected adds its bits. -/
lemma scan_more : scan (some ⟨bits, missing + 2, low, high⟩) (b :: rest) =
    scan (some ⟨bits * 64 + b.toNat % 64, missing + 1, 0x80, 0xBF⟩) rest := by
  rw [scan, if_pos hb]
  exact if_neg (by simp)

end

/-- The first of two bytes, if one would not have done. -/
lemma lead_of_two {n : Nat} (h : 2 ≤ n ∧ n < 32) :
    lead (UInt8.ofNat (n + 0xC0)) = .opens ⟨n, 1, 0x80, 0xBF⟩ := by
  unfold lead
  rw [UInt8.toNat_ofNat', Nat.mod_eq_of_lt (by omega)]
  dsimp only
  rw [if_neg (by omega), if_neg (by omega), if_pos (by omega), Nat.add_sub_cancel]

/-- The first of three bytes, if two would not have done and the second does not make a
surrogate. -/
lemma lead_of_three (n second : Nat) (h : n < 16) (hsecond : 0x80 ≤ second ∧ second ≤ 0xBF)
    (hlong : n = 0 → 0xA0 ≤ second) (hsurrogate : n = 0xD → second ≤ 0x9F) :
    ∃ low high, lead (UInt8.ofNat (n + 0xE0)) = .opens ⟨n, 2, low, high⟩ ∧
      low ≤ UInt8.ofNat second ∧ UInt8.ofNat second ≤ high := by
  unfold lead
  rw [UInt8.toNat_ofNat', Nat.mod_eq_of_lt (by omega)]
  dsimp only
  rw [if_neg (by omega), if_neg (by omega), if_neg (by omega)]
  by_cases hfirst : n = 0
  · subst hfirst
    exact ⟨0xA0, 0xBF, if_pos rfl, ofNat_between 0xA0 0xBF ⟨hlong rfl, hsecond.2⟩ (by decide)⟩
  · rw [if_neg (by omega)]
    by_cases hnear : n = 0xD
    · subst hnear
      exact ⟨0x80, 0x9F, if_pos rfl,
        ofNat_between 0x80 0x9F ⟨hsecond.1, hsurrogate rfl⟩ (by decide)⟩
    · rw [if_neg (by omega), if_pos (by omega), Nat.add_sub_cancel]
      exact ⟨0x80, 0xBF, rfl, ofNat_between 0x80 0xBF hsecond (by decide)⟩

/-- The first of four bytes, if three would not have done and the second does not lead beyond the
last character. -/
lemma lead_of_four (n second : Nat) (h : n ≤ 4) (hsecond : 0x80 ≤ second ∧ second ≤ 0xBF)
    (hlong : n = 0 → 0x90 ≤ second) (hbeyond : n = 4 → second ≤ 0x8F) :
    ∃ low high, lead (UInt8.ofNat (n + 0xF0)) = .opens ⟨n, 3, low, high⟩ ∧
      low ≤ UInt8.ofNat second ∧ UInt8.ofNat second ≤ high := by
  unfold lead
  rw [UInt8.toNat_ofNat', Nat.mod_eq_of_lt (by omega)]
  dsimp only
  rw [if_neg (by omega), if_neg (by omega), if_neg (by omega), if_neg (by omega),
    if_neg (by omega), if_neg (by omega)]
  by_cases hfirst : n = 0
  · subst hfirst
    exact ⟨0x90, 0xBF, if_pos rfl, ofNat_between 0x90 0xBF ⟨hlong rfl, hsecond.2⟩ (by decide)⟩
  · rw [if_neg (by omega)]
    by_cases hlast : n = 4
    · subst hlast
      rw [if_neg (by decide)]
      exact ⟨0x80, 0x8F, if_pos rfl,
        ofNat_between 0x80 0x8F ⟨hsecond.1, hbeyond rfl⟩ (by decide)⟩
    · rw [if_pos (by omega), Nat.add_sub_cancel]
      exact ⟨0x80, 0xBF, rfl, ofNat_between 0x80 0xBF hsecond (by decide)⟩

lemma scan_one {v : Nat} (h : v < 0x80) (rest : Bytes) :
    scan none (UInt8.ofNat v :: rest) = some (Char.ofNat v) :: scan none rest := by
  have hlead : lead (UInt8.ofNat v) = .complete (Char.ofNat v) := by
    unfold lead
    rw [UInt8.toNat_ofNat', Nat.mod_eq_of_lt (by omega)]
    exact if_pos h
  rw [scan, hlead]

lemma scan_two {v : Nat} (h : 0x80 ≤ v ∧ v < 0x800) (rest : Bytes) :
    scan none (UInt8.ofNat (v / 64 % 32 + 0xC0) :: UInt8.ofNat (v % 64 + 0x80) :: rest) =
      some (Char.ofNat v) :: scan none rest := by
  obtain ⟨hlast, hbits⟩ := tail_spec v
  have hlead := lead_of_two (n := v / 64 % 32) ⟨by omega, by omega⟩
  have hcode : v / 64 % 32 * 64 + v % 64 = v := by omega
  rw [scan, hlead]
  dsimp only
  rw [scan_last hlast, hbits, hcode]

lemma scan_three {v : Nat} (h : 0x800 ≤ v ∧ v < 0x10000) (hvalid : v < 0xD800 ∨ 0xDFFF < v)
    (rest : Bytes) :
    scan none (UInt8.ofNat (v / 4096 % 16 + 0xE0) :: UInt8.ofNat (v / 64 % 64 + 0x80) ::
      UInt8.ofNat (v % 64 + 0x80) :: rest) = some (Char.ofNat v) :: scan none rest := by
  obtain ⟨-, hsecondBits⟩ := tail_spec (v / 64)
  obtain ⟨hlast, hbits⟩ := tail_spec v
  obtain ⟨low, high, hlead, hsecond⟩ := lead_of_three (v / 4096 % 16) (v / 64 % 64 + 0x80)
    (by omega) ⟨by omega, by omega⟩ (by omega) (by omega)
  have hcode : (v / 4096 % 16 * 64 + v / 64 % 64) * 64 + v % 64 = v := by omega
  rw [scan, hlead]
  dsimp only
  rw [scan_more hsecond, scan_last hlast, hsecondBits, hbits, hcode]

lemma scan_four {v : Nat} (h : 0x10000 ≤ v ∧ v < 0x110000) (rest : Bytes) :
    scan none (UInt8.ofNat (v / 262144 % 8 + 0xF0) :: UInt8.ofNat (v / 4096 % 64 + 0x80) ::
      UInt8.ofNat (v / 64 % 64 + 0x80) :: UInt8.ofNat (v % 64 + 0x80) :: rest) =
      some (Char.ofNat v) :: scan none rest := by
  obtain ⟨-, hsecondBits⟩ := tail_spec (v / 4096)
  obtain ⟨hthird, hthirdBits⟩ := tail_spec (v / 64)
  obtain ⟨hlast, hbits⟩ := tail_spec v
  obtain ⟨low, high, hlead, hsecond⟩ := lead_of_four (v / 262144 % 8) (v / 4096 % 64 + 0x80)
    (by omega) ⟨by omega, by omega⟩ (by omega) (by omega)
  have hcode : ((v / 262144 % 8 * 64 + v / 4096 % 64) * 64 + v / 64 % 64) * 64 + v % 64 = v := by
    omega
  rw [scan, hlead]
  dsimp only
  rw [scan_more hsecond, scan_more hthird, scan_last hlast, hsecondBits, hthirdBits, hbits, hcode]

/-- A character is read from its own bytes, whatever stands behind them. -/
theorem scan_utf8EncodeChar (c : Char) (rest : Bytes) :
    scan none (String.utf8EncodeChar c ++ rest) = some c :: scan none rest := by
  have hvalid : c.toNat < 0xD800 ∨ (0xDFFF < c.toNat ∧ c.toNat < 0x110000) := c.valid
  have hchar : some (Char.ofNat c.toNat) :: scan none rest = some c :: scan none rest := by
    rw [Char.ofNat_toNat]
  have hval : c.val.toNat = c.toNat := rfl
  rw [← hchar]
  unfold String.utf8EncodeChar
  rw [hval]
  dsimp only
  split
  · exact scan_one (by omega) rest
  · split
    · exact scan_two ⟨by omega, by omega⟩ rest
    · split
      · exact scan_three ⟨by omega, by omega⟩ (by omega) rest
      · exact scan_four ⟨by omega, by omega⟩ rest

/-- A text is read from its own bytes. -/
theorem decodeLossy_encode (t : Text) : decodeLossy (encode t) = t := by
  induction t with
  | nil => rfl
  | cons c t ih =>
    rw [decodeLossy] at ih ⊢
    rw [encode_cons, scan_utf8EncodeChar, List.map_cons, ih]
    rfl

end Utf8

end ContentMounts
