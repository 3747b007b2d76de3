import Mathlib.Data.List.Induction
import ContentMounts.Proofs.Path.Segments
import ContentMounts.Proofs.Text.Percent
import ContentMounts.Proofs.Text.Trim

/-!
# Paths spelled with escapes

A text spells a path once its escapes are read. No escape goes over a slash, so a slash of the text
always separates segments, and the segments of the whole are those of its parts
(`segments_spelled_append_slash`). A slash can also be escaped: a part without slashes may spell
several segments, or none.

The bulk of a text is the number of bytes that its segments hold. It cannot grow when texts are put
together (`bulk_append_le`).
-/

namespace ContentMounts

namespace Path

/-- The path that a text spells. -/
def spelled (t : Text) : Path := ⟨Percent.decode t⟩

lemma isCut_slash : Percent.IsCut '/' := ⟨by decide, by decide, by decide⟩

@[simp] lemma segments_spelled_nil : (spelled []).segments = [] := rfl

/-- The segments on both sides of a slash. -/
lemma segments_spelled_append_slash (t s : Text) :
    (spelled (t ++ '/' :: s)).segments = (spelled t).segments ++ (spelled s).segments := by
  rw [spelled, Percent.decode_append_cons isCut_slash]
  exact segments_append_slash (Percent.decode t) (Percent.decode s)

@[simp] lemma segments_spelled_slash (t : Text) :
    (spelled ('/' :: t)).segments = (spelled t).segments :=
  segments_spelled_append_slash [] t

/-- Slashes in front say nothing about the segments. -/
@[simp] lemma segments_spelled_dropWhile (t : Text) :
    (spelled (t.dropWhile (· == '/'))).segments = (spelled t).segments := by
  induction t with
  | nil => rfl
  | cons c t ih =>
    by_cases hc : c = '/'
    · rw [hc, List.dropWhile_cons_of_pos (by decide), ih, segments_spelled_slash]
    · rw [List.dropWhile_cons_of_neg (by simpa using hc)]

/-- Slashes at the end say nothing about the segments. -/
@[simp] lemma segments_spelled_dropEndWhile (t : Text) :
    (spelled (Text.dropEndWhile (· == '/') t)).segments = (spelled t).segments := by
  induction t using List.reverseRecOn with
  | nil => rfl
  | append_singleton t c ih =>
    by_cases hc : c = '/'
    · rw [hc, Text.dropEndWhile_concat (by decide), ih, segments_spelled_append_slash,
        segments_spelled_nil, List.append_nil]
    · rw [Text.dropEndWhile_concat_of_not (by simpa using hc)]

/-- The segments of pieces with slashes between them. -/
lemma segments_spelled_intercalate (pieces : List Text) :
    (spelled (List.intercalate ['/'] pieces)).segments =
      pieces.flatMap fun piece => (spelled piece).segments := by
  induction pieces with
  | nil => rfl
  | cons piece pieces ih =>
    cases pieces with
    | nil => simp
    | cons next pieces =>
      rw [List.intercalate_cons_cons, List.append_assoc, List.singleton_append,
        segments_spelled_append_slash, ih]
      rfl

/-- The segments of a text are those of its pieces. -/
lemma segments_spelled_eq_flatMap (t : Text) :
    (spelled t).segments = (t.splitOn '/').flatMap fun piece => (spelled piece).segments := by
  rw [← segments_spelled_intercalate, List.intercalate_splitOn]

/-- What is one segment has itself for its only segment. -/
lemma segments_of_isSegment {s : Name} (h : Name.IsSegment s) : segments ⟨s⟩ = [s] := by
  have hsegment : ∀ t ∈ [s], Name.IsSegment t := by simpa using h
  have hsingle := segments_ofSegments false hsegment
  rw [ofSegments, List.intercalate_singleton] at hsingle
  exact hsingle

/-! ## The bulk of what is spelled

What is counted are the bytes that are not separators, so that the segments of a path have the bulk
of the path. -/

/-- The number of bytes in a byte string that are not separators. -/
def bulkOf (bs : Bytes) : Nat := bs.countP (· != slash)

/-- The number of bytes that a text spells, separators left out. -/
def bulk (t : Text) : Nat := bulkOf (Percent.decode t)

@[simp] lemma bulk_nil : bulk [] = 0 := rfl

@[simp] lemma bulkOf_cons (b : UInt8) (bs : Bytes) :
    bulkOf (b :: bs) = (if b = slash then 0 else 1) + bulkOf bs := by
  rw [bulkOf, List.countP_cons, Nat.add_comm, bulkOf]
  by_cases hb : b = slash <;> simp [hb]

lemma bulkOf_cons_le (b : UInt8) (bs : Bytes) : bulkOf (b :: bs) ≤ bulkOf bs + 1 := by
  rw [bulkOf_cons]
  split <;> omega

lemma bulkOf_append (bs cs : Bytes) : bulkOf (bs ++ cs) = bulkOf bs + bulkOf cs :=
  List.countP_append

/-- The bytes of a path that are not separators are those of its segments. -/
lemma length_flatten_segments (p : Path) : p.segments.flatten.length = bulkOf p.bytes := by
  have hkept : ∀ pieces : List Bytes, (pieces.filter (!·.isEmpty)).flatten = pieces.flatten := by
    intro pieces
    induction pieces with
    | nil => rfl
    | cons piece pieces ih =>
      cases piece <;> simp [ih]
  rw [segments, hkept, length_flatten_splitOn]
  rfl

/-- A character that no escape holds has a bulk of its own. -/
lemma bulk_append_cons {c : Char} (h : Percent.IsCut c) (t s : Text) :
    bulk (t ++ c :: s) = bulk t + bulk (c :: s) := by
  rw [bulk, Percent.decode_append_cons h, bulkOf_append,
    ← Percent.decode_cons_of_ne h.low h.ne_percent]
  rfl

lemma bulk_cons_of_ne {c : Char} (hlow : c.toNat < 0x80) (hne : c ≠ '%') (hslash : c ≠ '/')
    (t : Text) : bulk (c :: t) = bulk t + 1 := by
  have hbyte : UInt8.ofNat c.toNat ≠ slash := by
    have hfacts : ∀ n < 0x80, UInt8.ofNat n = slash → n = 0x2F := by decide
    intro heq
    apply hslash
    rw [← Char.ofNat_toNat c, hfacts c.toNat hlow heq]
  rw [bulk, Percent.decode_cons_of_ne hlow hne, bulkOf_cons, if_neg hbyte, Nat.add_comm]
  rfl

@[simp] lemma bulk_slash (t : Text) : bulk ('/' :: t) = bulk t := by
  rw [bulk, Percent.decode_slash, bulkOf_cons, if_pos rfl, Nat.zero_add]
  rfl

/-- A digit has a bulk of its own. -/
lemma bulkOf_decodeBytes_digit {d : UInt8} (hd : Percent.hexByte? d ≠ none) (bs : Bytes) :
    bulkOf (Percent.decodeBytes (d :: bs)) = bulkOf (Percent.decodeBytes bs) + 1 := by
  have hmark : d ≠ 0x25 := fun heq => hd (heq ▸ Percent.hexByte?_percent)
  have hslash : d ≠ slash := fun heq => hd (heq ▸ by decide)
  rw [Percent.decodeBytes_cons_of_ne hmark, bulkOf_cons, if_neg hslash, Nat.add_comm]

/-- The digits of an escape that comes about where two texts meet had a bulk of their own as long as
they stood behind no mark, so nothing but bulk is lost. -/
lemma bulkOf_decodeBytes_append_le (xs ys : Bytes) : bulkOf (Percent.decodeBytes (xs ++ ys)) ≤
    bulkOf (Percent.decodeBytes xs) + bulkOf (Percent.decodeBytes ys) := by
  induction xs using Percent.reading_induction with
  | nil => exact Nat.le_add_left _ _
  | plain b rest hnone ih =>
    rw [List.cons_append, Percent.decodeBytes_cons b rest, hnone, Percent.decodeBytes_cons]
    dsimp only
    rw [bulkOf_cons]
    split
    · next value behind hpair =>
      split at hpair
      · obtain ⟨d, e, hdigits, hd, he⟩ := Percent.digits_of_pair? hpair
        rw [hdigits, bulkOf_decodeBytes_digit hd, bulkOf_decodeBytes_digit he] at ih
        have hvalue := bulkOf_cons_le value (Percent.decodeBytes behind)
        omega
      · cases hpair
    · rw [bulkOf_cons]
      omega
  | escaped rest value behind hpair ih =>
    rw [List.cons_append, Percent.decodeBytes_cons, Percent.decodeBytes_cons 0x25 rest,
      if_pos rfl, if_pos rfl, Percent.pair?_append hpair, hpair]
    dsimp only
    rw [bulkOf_cons, bulkOf_cons]
    omega

/-- Texts that are put together have no more bulk than they have one by one. They have less where
the digits of an escape come to stand behind its mark. -/
lemma bulk_append_le (t s : Text) : bulk (t ++ s) ≤ bulk t + bulk s := by
  rw [bulk, Percent.decode, Utf8.encode_append]
  exact bulkOf_decodeBytes_append_le _ _

/-- A text that spells the segments of another one and some dots that say nothing has more bulk, or
there are no such dots. -/
lemma segments_spelled_eq_of_bulk_le {t s : Text}
    (h : (spelled t).segments.filter (· != Name.dot) = (spelled s).segments) :
    bulk s ≤ bulk t ∧ (bulk t ≤ bulk s → (spelled t).segments = (spelled s).segments) := by
  have hcount := length_flatten_filter_dot (spelled t).segments
  rw [h, length_flatten_segments, length_flatten_segments] at hcount
  change bulk s + _ = bulk t at hcount
  refine ⟨by omega, fun hle => ?_⟩
  have hnone : Name.dot ∉ (spelled t).segments := List.count_eq_zero.mp (by omega)
  rw [← h, eq_comm, List.filter_eq_self]
  intro name hname
  simpa using fun hdot : name = Name.dot => hnone (hdot ▸ hname)

end Path

end ContentMounts
