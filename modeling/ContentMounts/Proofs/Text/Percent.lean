import Mathlib.Tactic.Common
import ContentMounts.Path
import ContentMounts.Percent
import ContentMounts.Proofs.Text.Utf8

/-!
# Escapes

A text stands as it is if none of its characters has to be escaped (`Stands`); escaping leaves it
alone (`encode_of_stands`). What is escaped comes back when it is read (`decode_encodeBytes`), and
no character of a smaller set is left in it (`stands_encodeBytes`), so that it is not escaped again.

Reading can be cut in two in front of a character that is not part of an escape (`IsCut`,
`decode_append_cons`).
-/

namespace ContentMounts

namespace Percent

/-- An ASCII character has the number that it was made from. -/
lemma toNat_ofNat_of_lt {n : Nat} (h : n < 0x80) : (Char.ofNat n).toNat = n := by
  rw [Char.ofNat, dif_pos (Or.inl (by omega))]
  rfl

/-! ## What has not to be escaped -/

/-- Whether a character need not be escaped. -/
def IsPlain (set : ByteSet) (c : Char) : Prop :=
  c.toNat < 0x80 ∧ set (UInt8.ofNat c.toNat) = false

/-- Whether no character of a text has to be escaped. -/
def Stands (set : ByteSet) (t : Text) : Prop := ∀ c ∈ t, IsPlain set c

instance (set : ByteSet) (c : Char) : Decidable (IsPlain set c) :=
  inferInstanceAs (Decidable (_ ∧ _))

instance (set : ByteSet) (t : Text) : Decidable (Stands set t) := List.decidableBAll (IsPlain set) t

lemma IsPlain.mono {small set : ByteSet} {c : Char} (h : IsPlain set c)
    (hsub : ∀ b, small b = true → set b = true) : IsPlain small c := by
  refine ⟨h.1, ?_⟩
  cases hsmall : small (UInt8.ofNat c.toNat) with
  | false => rfl
  | true =>
    have hset := hsub _ hsmall
    rw [h.2] at hset
    cases hset

lemma Stands.append {set : ByteSet} {t s : Text} (ht : Stands set t) (hs : Stands set s) :
    Stands set (t ++ s) := fun c hc => (List.mem_append.mp hc).elim (ht c) (hs c)

lemma stands_cons {set : ByteSet} {c : Char} {t : Text} :
    Stands set (c :: t) ↔ IsPlain set c ∧ Stands set t := List.forall_mem_cons

@[simp] lemma encodeBytes_nil (set : ByteSet) : encodeBytes set [] = [] := rfl

lemma encodeBytes_cons (set : ByteSet) (b : UInt8) (bs : Bytes) :
    encodeBytes set (b :: bs) =
      (if set b then escape b else [Char.ofNat b.toNat]) ++ encodeBytes set bs := List.flatMap_cons

lemma encodeBytes_append (set : ByteSet) (bs cs : Bytes) :
    encodeBytes set (bs ++ cs) = encodeBytes set bs ++ encodeBytes set cs := List.flatMap_append

lemma encode_append (set : ByteSet) (t s : Text) :
    encode set (t ++ s) = encode set t ++ encode set s := by
  rw [encode, Utf8.encode_append, encodeBytes_append]
  rfl

/-- Where nothing has to be escaped nothing is. -/
lemma encode_of_stands {set : ByteSet} {t : Text} (h : Stands set t) : encode set t = t := by
  induction t with
  | nil => rfl
  | cons c t ih =>
    obtain ⟨⟨hlow, hset⟩, ht⟩ := stands_cons.mp h
    have hchar : Char.ofNat (UInt8.ofNat c.toNat).toNat = c := by
      rw [UInt8.toNat_ofNat', Nat.mod_eq_of_lt (by omega), Char.ofNat_toNat]
    have hih := ih ht
    rw [encode] at hih ⊢
    rw [Utf8.encode_cons, Utf8.utf8EncodeChar_of_lt hlow, List.singleton_append, encodeBytes_cons,
      hset, if_neg Bool.false_ne_true, hchar, hih, List.singleton_append]

lemma controls_of_high {b : UInt8} (h : 0x80 ≤ b) : controls b = true := by
  have hb : b ≥ 0x7F := UInt8.le_trans (by decide) h
  simp [controls, hb]

lemma adding_of_set {set : ByteSet} {b : UInt8} (h : set b = true) (cs : Text) :
    adding set cs b = true := by
  rw [adding, h, Bool.true_or]

/-! ## Escapes -/

/-- A digit is an ASCII character and has the value that it was written for. -/
lemma hexDigit_spec : ∀ n < 16, (hexDigit n).toNat < 0x80 ∧
    hexByte? (UInt8.ofNat (hexDigit n).toNat) = some n := by
  decide

lemma encode_escape (b : UInt8) : Utf8.encode (escape b) =
    [0x25, UInt8.ofNat (hexDigit (b.toNat / 16)).toNat,
      UInt8.ofNat (hexDigit (b.toNat % 16)).toNat] := by
  have hb := b.toNat_lt
  rw [escape, Utf8.encode_cons, Utf8.encode_cons, Utf8.encode_cons,
    Utf8.utf8EncodeChar_of_lt (hexDigit_spec (b.toNat / 16) (by omega)).1,
    Utf8.utf8EncodeChar_of_lt (hexDigit_spec (b.toNat % 16) (by omega)).1]
  rfl

/-- Only ASCII characters stay as they are. -/
lemma toNat_lt_of_not_set {set : ByteSet} (hhigh : ∀ b, 0x80 ≤ b → set b = true) {b : UInt8}
    (hset : ¬set b = true) : b.toNat < 0x80 := by
  by_contra hge
  exact hset (hhigh b (UInt8.le_iff_toNat_le.mpr (by simpa using hge)))

/-- What an escaped byte string leaves of a set: nothing, if the set is escaped and holds neither
the mark of an escape nor a digit. -/
lemma stands_encodeBytes {set small : ByteSet} (hsub : ∀ b, small b = true → set b = true)
    (hhigh : ∀ b, 0x80 ≤ b → set b = true) (hmark : small 0x25 = false)
    (hdigit : ∀ n < 16, small (UInt8.ofNat (hexDigit n).toNat) = false) (bs : Bytes) :
    Stands small (encodeBytes set bs) := by
  induction bs with
  | nil => simp [Stands]
  | cons b bs ih =>
    rw [encodeBytes_cons]
    refine Stands.append ?_ ih
    have hb := b.toNat_lt
    split
    · have hdigits : ∀ n < 16, IsPlain small (hexDigit n) :=
        fun n hn => ⟨(hexDigit_spec n hn).1, hdigit n hn⟩
      rw [escape]
      simp only [stands_cons]
      exact ⟨⟨by decide, hmark⟩, hdigits _ (by omega), hdigits _ (by omega), by simp [Stands]⟩
    · next hset =>
      have hlow := toNat_lt_of_not_set hhigh hset
      have hchar := toNat_ofNat_of_lt hlow
      simp only [stands_cons, IsPlain, hchar, UInt8.ofNat_toNat]
      refine ⟨⟨hlow, ?_⟩, by simp [Stands]⟩
      cases hsmall : small b with
      | false => rfl
      | true => exact absurd (hsub b hsmall) hset

/-- An escaped text need not be escaped again. -/
lemma stands_encode {set : ByteSet} (hhigh : ∀ b, 0x80 ≤ b → set b = true)
    (hmark : set 0x25 = false)
    (hdigit : ∀ n < 16, set (UInt8.ofNat (hexDigit n).toNat) = false) (t : Text) :
    Stands set (encode set t) :=
  stands_encodeBytes (fun _ => id) hhigh hmark hdigit (Utf8.encode t)

/-- The characters of an escaped text are those of escapes and of the text. -/
lemma mem_encode {set : ByteSet} (hhigh : ∀ b, 0x80 ≤ b → set b = true) {t : Text} {c : Char}
    (hc : c ∈ encode set t) : c = '%' ∨ (∃ n < 16, c = hexDigit n) ∨ c ∈ t := by
  obtain ⟨b, hb, hin⟩ := List.mem_flatMap.mp hc
  have hlt := b.toNat_lt
  split at hin
  · simp only [escape, List.mem_cons, List.not_mem_nil, or_false] at hin
    rcases hin with rfl | rfl | rfl
    · exact .inl rfl
    · exact .inr (.inl ⟨_, by omega, rfl⟩)
    · exact .inr (.inl ⟨_, by omega, rfl⟩)
  · next hset =>
    have hlow := toNat_lt_of_not_set hhigh hset
    obtain ⟨d, hd, hbyte⟩ := List.mem_flatMap.mp hb
    have hchar : c = d := by
      rw [List.mem_singleton.mp hin, ← Utf8.toNat_eq_of_mem_utf8EncodeChar hbyte hlow,
        Char.ofNat_toNat]
    exact .inr (.inr (hchar ▸ hd))

/-! ## Reading escapes -/

lemma decodeBytes_cons_of_ne {b : UInt8} (h : b ≠ 0x25) (rest : Bytes) :
    decodeBytes (b :: rest) = b :: decodeBytes rest := by
  cases rest with
  | nil => rfl
  | cons d rest =>
    cases rest with
    | nil => rfl
    | cons l rest => rw [decodeBytes, if_neg h]

lemma decodeBytes_escape (b : UInt8) (rest : Bytes) :
    decodeBytes (Utf8.encode (escape b) ++ rest) = b :: decodeBytes rest := by
  have hb := b.toNat_lt
  have hvalue : UInt8.ofNat (b.toNat / 16 * 16 + b.toNat % 16) = b := by
    rw [Nat.div_add_mod', UInt8.ofNat_toNat]
  rw [encode_escape, List.cons_append, List.cons_append, List.cons_append, List.nil_append,
    decodeBytes, if_pos rfl, (hexDigit_spec (b.toNat / 16) (by omega)).2,
    (hexDigit_spec (b.toNat % 16) (by omega)).2]
  dsimp only
  rw [hvalue]

/-- What is written for a byte and for those behind it. -/
lemma encode_encodeBytes_cons {set : ByteSet} (hhigh : ∀ b, 0x80 ≤ b → set b = true) (b : UInt8)
    (bs : Bytes) : Utf8.encode (encodeBytes set (b :: bs)) =
      (if set b then Utf8.encode (escape b) else [b]) ++ Utf8.encode (encodeBytes set bs) := by
  rw [encodeBytes_cons, Utf8.encode_append]
  split
  · rfl
  · next hset =>
    have hlow := toNat_lt_of_not_set hhigh hset
    have hchar := toNat_ofNat_of_lt hlow
    have hbyte : Utf8.encode [Char.ofNat b.toNat] = [b] := by
      rw [Utf8.encode_cons, Utf8.utf8EncodeChar_of_lt (by omega), hchar, UInt8.ofNat_toNat]
      rfl
    rw [hbyte]

/-- What was escaped comes back, if the mark of an escape and the bytes outside ASCII were. -/
theorem decode_encodeBytes {set : ByteSet} (hmark : set 0x25 = true)
    (hhigh : ∀ b, 0x80 ≤ b → set b = true) (bs : Bytes) : decode (encodeBytes set bs) = bs := by
  induction bs with
  | nil => rfl
  | cons b bs ih =>
    rw [decode] at ih ⊢
    rw [encode_encodeBytes_cons hhigh]
    split
    · rw [decodeBytes_escape, ih]
    · next hset =>
      have hne : b ≠ 0x25 := fun heq => hset (heq ▸ hmark)
      rw [List.singleton_append, decodeBytes_cons_of_ne hne, ih]

/-- A byte that is not escaped is read as it is. -/
lemma decode_slash (t : Text) : decode ('/' :: t) = Path.slash :: decode t := by
  have hencode : Utf8.encode ('/' :: t) = Path.slash :: Utf8.encode t := rfl
  rw [decode, hencode, decodeBytes_cons_of_ne (by decide)]
  rfl

lemma decodeBytes_ne_nil {bs : Bytes} (h : bs ≠ []) : decodeBytes bs ≠ [] := by
  unfold decodeBytes
  split
  · exact absurd rfl h
  · split
    · simp
    · split
      · simp
      · split
        · split <;> simp
        · simp

/-- A text stands for at least one byte. -/
lemma decode_ne_nil {t : Text} (h : t ≠ []) : decode t ≠ [] :=
  decodeBytes_ne_nil fun hnil => h (Utf8.encode_eq_nil_iff.mp hnil)

/-! ## Where reading can be cut

An escape is a mark and two digits, so reading can be cut in front of whatever is no digit
(`decode_append_cons`). Escaping what is neither a mark nor a digit makes no new escapes and takes
none away, so that the text is read as before (`decode_encode_of_digits`). -/

lemma hexByte?_percent : hexByte? 0x25 = none := by decide

/-- The byte that is written by two digits at the start of a byte string, and what stands behind
them. -/
def pair? : Bytes → Option (UInt8 × Bytes)
  | d :: e :: rest =>
    match hexByte? d, hexByte? e with
    | some x, some y => some (UInt8.ofNat (x * 16 + y), rest)
    | _, _ => none
  | _ => none

/-- A pair is made of two digits. -/
lemma digits_of_pair? {bs rest : Bytes} {value : UInt8} (h : pair? bs = some (value, rest)) :
    ∃ d e, bs = d :: e :: rest ∧ hexByte? d ≠ none ∧ hexByte? e ≠ none := by
  unfold pair? at h
  split at h
  · next d e behind =>
    split at h
    · next hd he =>
      cases h
      exact ⟨d, e, rfl, by simp [hd], by simp [he]⟩
    · cases h
  · cases h

lemma pair?_append {bs rest : Bytes} {value : UInt8} (h : pair? bs = some (value, rest))
    (cs : Bytes) : pair? (bs ++ cs) = some (value, rest ++ cs) := by
  obtain ⟨d, e, rfl, -, -⟩ := digits_of_pair? h
  simp only [List.cons_append, pair?] at h ⊢
  split at h
  · cases h
    rfl
  · cases h

/-- A pair ends before whatever is no digit. -/
lemma pair?_append_cons {b : UInt8} (hb : hexByte? b = none) (xs ys : Bytes) :
    pair? (xs ++ b :: ys) = (pair? xs).map fun (value, rest) => (value, rest ++ b :: ys) := by
  match xs with
  | [] => cases ys <;> simp [pair?, hb]
  | [d] => simp [pair?, hb]
  | d :: e :: rest =>
    simp only [List.cons_append, pair?]
    cases hexByte? d <;> cases hexByte? e <;> rfl

lemma pair?_percent (bs : Bytes) : pair? (0x25 :: bs) = none := by
  cases bs <;> simp [pair?, hexByte?_percent]

/-- A mark is the start of an escape if a pair stands behind it. -/
lemma decodeBytes_cons (b : UInt8) (rest : Bytes) :
    decodeBytes (b :: rest) =
      match (if b = 0x25 then pair? rest else none) with
      | some (value, behind) => value :: decodeBytes behind
      | none => b :: decodeBytes rest := by
  by_cases hb : b = 0x25
  · rw [if_pos hb]
    match rest with
    | [] => rfl
    | [d] => rfl
    | d :: e :: behind =>
      rw [decodeBytes, if_pos hb, pair?]
      split <;> simp_all
  · rw [if_neg hb, decodeBytes_cons_of_ne hb]

/-- Byte strings are read by one byte or by one escape at a time. -/
lemma reading_induction {P : Bytes → Prop} (nil : P [])
    (plain : ∀ b rest, (if b = 0x25 then pair? rest else none) = none → P rest → P (b :: rest))
    (escaped : ∀ rest value behind, pair? rest = some (value, behind) → P behind →
      P (0x25 :: rest)) (bs : Bytes) : P bs := by
  induction hn : bs.length using Nat.strongRecOn generalizing bs with
  | ind n ih =>
    cases bs with
    | nil => exact nil
    | cons b rest =>
      rw [List.length_cons] at hn
      cases hpair : (if b = 0x25 then pair? rest else none) with
      | none => exact plain b rest hpair (ih rest.length (by omega) rest rfl)
      | some found =>
        obtain ⟨value, behind⟩ := found
        split at hpair
        · next hb =>
          rw [hb]
          obtain ⟨d, e, rfl, -, -⟩ := digits_of_pair? hpair
          simp only [List.length_cons] at hn
          exact escaped _ value behind hpair (ih behind.length (by omega) behind rfl)
        · cases hpair

lemma decodeBytes_append_cons {b : UInt8} (hb : hexByte? b = none) (xs ys : Bytes) :
    decodeBytes (xs ++ b :: ys) = decodeBytes xs ++ decodeBytes (b :: ys) := by
  induction xs using reading_induction with
  | nil => rfl
  | plain c rest hnone ih =>
    have hbehind : (if c = 0x25 then pair? (rest ++ b :: ys) else none) = none := by
      rw [pair?_append_cons hb]
      split at hnone
      · rw [if_pos ‹_›, hnone]
        rfl
      · rw [if_neg ‹_›]
    rw [List.cons_append, decodeBytes_cons, decodeBytes_cons c rest, hnone, hbehind]
    dsimp only
    rw [ih, List.cons_append]
  | escaped rest value behind hpair ih =>
    rw [List.cons_append, decodeBytes_cons, decodeBytes_cons 0x25 rest, if_pos rfl, if_pos rfl,
      pair?_append_cons hb, hpair]
    dsimp only [Option.map_some]
    rw [ih, List.cons_append]

/-- An ASCII character that no escape holds. -/
structure IsCut (c : Char) : Prop where
  low : c.toNat < 0x80
  ne_percent : c ≠ '%'
  no_digit : hexByte? (UInt8.ofNat c.toNat) = none

/-- A character that is not the mark of an escape is read as it is. -/
lemma decode_cons_of_ne {c : Char} (hlow : c.toNat < 0x80) (hne : c ≠ '%') (t : Text) :
    decode (c :: t) = UInt8.ofNat c.toNat :: decode t := by
  have hbyte : UInt8.ofNat c.toNat ≠ 0x25 := by
    have hfacts : ∀ n < 0x80, UInt8.ofNat n = 0x25 → n = 0x25 := by decide
    intro heq
    apply hne
    rw [← Char.ofNat_toNat c, hfacts c.toNat hlow heq]
  rw [decode, Utf8.encode_cons, Utf8.utf8EncodeChar_of_lt hlow, List.singleton_append,
    decodeBytes_cons_of_ne hbyte]
  rfl

/-- Where there is no mark nothing is an escape. -/
lemma decode_of_forall_ne {t : Text} (h : ∀ c ∈ t, c.toNat < 0x80 ∧ c ≠ '%') :
    decode t = Utf8.encode t := by
  induction t with
  | nil => rfl
  | cons c t ih =>
    obtain ⟨hlow, hne⟩ := h c List.mem_cons_self
    rw [decode_cons_of_ne hlow hne, ih fun d hd => h d (List.mem_cons_of_mem c hd),
      Utf8.encode_cons, Utf8.utf8EncodeChar_of_lt hlow, List.singleton_append]

/-- What stands in front of a character that no escape holds is read by itself. -/
lemma decode_append_cons {c : Char} (h : IsCut c) (t s : Text) :
    decode (t ++ c :: s) = decode t ++ UInt8.ofNat c.toNat :: decode s := by
  rw [← decode_cons_of_ne h.low h.ne_percent s]
  unfold decode
  rw [Utf8.encode_append, Utf8.encode_cons, Utf8.utf8EncodeChar_of_lt h.low,
    List.singleton_append, decodeBytes_append_cons h.no_digit]

lemma pair?_encodeBytes {set : ByteSet} (hhigh : ∀ b, 0x80 ≤ b → set b = true)
    (hdigit : ∀ b, set b = true → hexByte? b = none) (bs : Bytes) :
    pair? (Utf8.encode (encodeBytes set bs)) =
      (pair? bs).map fun (value, rest) => (value, Utf8.encode (encodeBytes set rest)) := by
  have hescaped : ∀ b rest, pair? (Utf8.encode (escape b) ++ rest) = none := by
    intro b rest
    rw [encode_escape, List.cons_append, pair?_percent]
  match bs with
  | [] => rfl
  | [d] =>
    rw [encode_encodeBytes_cons hhigh]
    split
    · rw [hescaped]
      rfl
    · rfl
  | d :: e :: rest =>
    rw [encode_encodeBytes_cons hhigh]
    split
    · next hd =>
      rw [hescaped, pair?, hdigit d hd]
      rfl
    · rw [encode_encodeBytes_cons hhigh]
      split
      · next he =>
        rw [encode_escape]
        simp only [List.cons_append, List.nil_append, pair?, hexByte?_percent, hdigit e he]
        cases hexByte? d <;> rfl
      · simp only [List.singleton_append, pair?]
        cases hexByte? d <;> cases hexByte? e <;> rfl

/-- A text is read as before once characters are escaped that no escape is made of. -/
lemma decode_encode_of_digits {set : ByteSet} (hhigh : ∀ b, 0x80 ≤ b → set b = true)
    (hmark : set 0x25 = false) (hdigit : ∀ b, set b = true → hexByte? b = none) (t : Text) :
    decode (encode set t) = decode t := by
  suffices h : ∀ bs, decodeBytes (Utf8.encode (encodeBytes set bs)) = decodeBytes bs from h _
  intro bs
  induction bs using reading_induction with
  | nil => rfl
  | plain b rest hnone ih =>
    rw [encode_encodeBytes_cons hhigh, decodeBytes_cons b rest, hnone]
    dsimp only
    split
    · rw [decodeBytes_escape, ih]
    · have hpair : (if b = 0x25 then pair? (Utf8.encode (encodeBytes set rest)) else none) =
          none := by
        rw [pair?_encodeBytes hhigh hdigit]
        split at hnone
        · rw [if_pos ‹_›, hnone]
          rfl
        · rw [if_neg ‹_›]
      rw [List.singleton_append, decodeBytes_cons, hpair]
      dsimp only
      rw [ih]
  | escaped rest value behind hpair ih =>
    rw [encode_encodeBytes_cons hhigh, if_neg (by simp [hmark]), List.singleton_append,
      decodeBytes_cons, decodeBytes_cons 0x25 rest, if_pos rfl, if_pos rfl,
      pair?_encodeBytes hhigh hdigit, hpair]
    dsimp only [Option.map_some]
    rw [ih]

end Percent

end ContentMounts
