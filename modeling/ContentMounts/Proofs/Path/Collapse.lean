import Mathlib.Data.List.Forall2
import Mathlib.Data.List.Induction
import ContentMounts.Proofs.Path.Segments

/-!
# The collapsed spelling

The detection of aliases sees a path in two ways. It collapses the spelling, which is to push the
segments one after the other behind what was pushed before (`Path.pushAll`), and it compares the
segments of two paths one by one, from the last one on (`Path.agreeFromEnd`). No alias may slip
through between the two, so they have to see the same segments, whatever the bytes are.

Both are functions of the segments. A pushed segment is never absolute and never follows a separator
but the one at the root, so one separator comes in front of each (`join_segment`), and the collapsed
spelling is what `Path.ofSegments` spells. A spelling at the root with the segments of a path, and
without a separator that is doubled or at the end, is the collapsed one
(`IsCollapsedFrom.eq_collapse`). `collapse_canonical` puts this together.
-/

namespace ContentMounts

namespace Path

/-! ## Pushing segments -/

/-- The path that is pushed together from segments, one after the other. -/
def pushAll (rooted : Bool) (names : List Name) : Path :=
  names.foldl (fun p s => p.join ⟨s⟩) (if rooted then join ⟨[]⟩ ⟨[slash]⟩ else ⟨[]⟩)

lemma isAbsolute_of_isSegment {s : Name} (h : Name.IsSegment s) :
    (⟨s⟩ : Path).isAbsolute = false := by
  rw [isAbsolute, beq_eq_false_iff_ne]
  exact fun hhead => h.notMem (List.mem_of_head? hhead)

/-- A segment that is pushed stands behind the others. -/
lemma join_segment (rooted : Bool) {init : List Name} {s : Name}
    (h : ∀ t ∈ init ++ [s], Name.IsSegment t) :
    (ofSegments rooted init).join ⟨s⟩ = ofSegments rooted (init ++ [s]) := by
  have hs : (⟨s⟩ : Path).isAbsolute = false := isAbsolute_of_isSegment (h s (by simp))
  have hinit : ∀ t ∈ init, Name.IsSegment t := fun t ht => h t (List.mem_append_left [s] ht)
  rw [join, if_neg (by simp [hs])]
  by_cases hne : init = []
  · -- nothing is pushed yet: the path is empty or the root
    rw [hne]
    cases rooted <;> simp [ofSegments, endsInSlash]
  · have hbytes : (ofSegments rooted init).bytes.isEmpty = false := by
      simp [ofSegments, intercalate_ne_nil hinit hne]
    rw [hbytes, endsInSlash_ofSegments hinit hne, if_neg (by simp), ofSegments, ofSegments,
      intercalate_concat hne, List.append_assoc]

/-- What is pushed together from segments is what they spell. -/
lemma pushAll_eq_ofSegments (rooted : Bool) {names : List Name}
    (h : ∀ s ∈ names, Name.IsSegment s) : pushAll rooted names = ofSegments rooted names := by
  induction names using List.reverseRecOn with
  | nil => cases rooted <;> rfl
  | append_singleton init s ih =>
    have hinit := ih fun t ht => h t (List.mem_append_left [s] ht)
    rw [pushAll] at hinit
    rw [pushAll, List.foldl_append, hinit, List.foldl_cons, List.foldl_nil, join_segment rooted h]

/-- The collapsed spelling is pushed together from the segments. -/
theorem collapse_eq_pushAll (p : Path) : p.collapse = pushAll p.isAbsolute p.segments :=
  (pushAll_eq_ofSegments p.isAbsolute isSegment_of_mem_segments).symm

/-- A collapsed spelling is collapsed already. -/
lemma collapse_collapse (p : Path) : p.collapse.collapse = p.collapse := by
  rw [collapse, isAbsolute_collapse, segments_collapse, ← collapse]

/-! ## Comparing from the end -/

/-- Whether there are as many segments on both sides and they agree one by one from the last one
on. -/
def agreeFromEnd (xs ys : List Name) : Bool :=
  xs.length == ys.length && (xs.reverse.zip ys.reverse).all fun (x, y) => x == y

lemma agreeFromEnd_iff {xs ys : List Name} : agreeFromEnd xs ys = true ↔ xs = ys := by
  have hpairs : (xs.reverse.zip ys.reverse).all (fun (x, y) => x == y) = true ↔
      ∀ {x y}, (x, y) ∈ xs.reverse.zip ys.reverse → x = y := by
    simp [List.all_eq_true]
  have hlength : xs.length = ys.length ↔ xs.reverse.length = ys.reverse.length := by simp
  rw [agreeFromEnd, Bool.and_eq_true, beq_iff_eq, hpairs, hlength, ← List.forall₂_iff_zip,
    List.forall₂_eq_eq_eq, List.reverse_inj]

/-- Segments may as well be compared from the end. -/
theorem sameSegments_eq_agreeFromEnd (p q : Path) :
    p.sameSegments q = agreeFromEnd p.segments q.segments := by
  rw [Bool.eq_iff_iff, agreeFromEnd_iff, sameSegments, beq_iff_eq]

/-! ## Collapsed spellings -/

/-- A spelling at the root with the segments of a path, in which no separator stands behind another
one, and none at the end unless it is the root. -/
structure IsCollapsedFrom (c p : Path) : Prop where
  isAbsolute : c.isAbsolute = true
  segments_eq : c.segments = p.segments
  not_doubled : ¬[slash, slash] <:+: c.bytes
  not_trailing : c.bytes ≠ [slash] → c.endsInSlash = false

section

variable {p : Path}

lemma isCollapsedFrom_collapse (habs : p.isAbsolute = true) : p.collapse.IsCollapsedFrom p where
  isAbsolute := (isAbsolute_collapse p).trans habs
  segments_eq := segments_collapse p
  not_doubled := by
    rw [collapse_of_isAbsolute habs]
    exact not_infix_ofSegments isSegment_of_mem_segments
  not_trailing hroot := by
    rw [collapse_of_isAbsolute habs] at hroot ⊢
    refine endsInSlash_ofSegments isSegment_of_mem_segments (fun hnil => hroot ?_) true
    rw [hnil]
    rfl

/-- There is only one collapsed spelling. -/
lemma IsCollapsedFrom.eq_collapse {c : Path} (h : c.IsCollapsedFrom p)
    (habs : p.isAbsolute = true) : c = p.collapse := by
  have hcollapse : c.collapse = p.collapse := by
    rw [collapse_of_isAbsolute h.isAbsolute, collapse_of_isAbsolute habs, h.segments_eq]
  rcases eq_collapse_or h.isAbsolute h.not_doubled with hself | ⟨hne, hslash⟩
  · exact hself.trans hcollapse
  · -- with a separator behind the segments the spelling would not be the root
    have hends : c.endsInSlash = true := by
      rw [hslash, endsInSlash, List.getLast?_concat, beq_self_eq_true]
    have hroot : c.bytes = [slash] := by
      by_contra hlong
      rw [h.not_trailing hlong] at hends
      cases hends
    have hnone : c.segments = [] := by
      rw [segments, hroot]
      rfl
    exact absurd hnone hne

/-- Paths at the root have the same segments if they are collapsed to the same bytes. -/
lemma sameSegments_iff_collapse {q : Path} (hp : p.isAbsolute = true) (hq : q.isAbsolute = true) :
    p.sameSegments q = true ↔ p.collapse.bytes = q.collapse.bytes := by
  rw [sameSegments, beq_iff_eq]
  constructor
  · intro heq
    rw [collapse_of_isAbsolute hp, collapse_of_isAbsolute hq, heq]
  · intro hbytes
    rw [← segments_collapse p, ← segments_collapse q, segments, segments, hbytes]

/-- The collapsed spelling of a path at the root is canonical. It starts at the root, has the
segments of the path in their order, dots among them, and no separator that is doubled or, unless it
is the root, at its end; it is the only spelling of that kind, it is its own collapsed spelling, and
it is what comes of pushing the segments one after the other. Two paths at the root have the same
segments, compared one by one from the last one on, exactly if their collapsed spellings agree byte
for byte. -/
theorem collapse_canonical (habs : p.isAbsolute = true) :
    (∀ c : Path, c.IsCollapsedFrom p ↔ c = p.collapse) ∧
      p.collapse.collapse = p.collapse ∧
      p.collapse = pushAll true p.segments ∧
      ∀ q : Path, q.isAbsolute = true →
        (p.sameSegments q = true ↔ p.collapse.bytes = q.collapse.bytes) ∧
        p.sameSegments q = agreeFromEnd p.segments q.segments := by
  have hcollapsed := isCollapsedFrom_collapse habs
  refine ⟨fun c => ⟨fun hc => hc.eq_collapse habs, fun hc => hc ▸ hcollapsed⟩,
    collapse_collapse p, ?_, ?_⟩
  · rw [collapse_eq_pushAll, habs]
  · exact fun q hq => ⟨sameSegments_iff_collapse habs hq, sameSegments_eq_agreeFromEnd p q⟩

end

/-! ### Two spellings of one path -/

/-- A path with doubled separators, dots, a byte that is not text, and a separator at its end. -/
def looseSpelling : Path :=
  ⟨[0x2F, 0x2F, 0x61, 0x2F, 0x2E, 0x2F, 0x2F, 0xFF, 0x2F, 0x2E, 0x2E, 0x2F]⟩

/-- The path `/a/./\xFF/..`. -/
def tightSpelling : Path := ⟨[0x2F, 0x61, 0x2F, 0x2E, 0x2F, 0xFF, 0x2F, 0x2E, 0x2E]⟩

/-- The loose spelling is collapsed to the tight one, and has its segments. -/
theorem collapse_looseSpelling :
    looseSpelling.isAbsolute = true ∧ tightSpelling.isAbsolute = true ∧
      tightSpelling = looseSpelling.collapse ∧
      tightSpelling.segments = [[0x61], Name.dot, [0xFF], Name.dotDot] ∧
      tightSpelling.IsCollapsedFrom looseSpelling ∧
      looseSpelling.sameSegments tightSpelling = true := by
  obtain ⟨honly, -, -, hsame⟩ := collapse_canonical (p := looseSpelling) rfl
  have htight : tightSpelling = looseSpelling.collapse := by decide
  refine ⟨rfl, rfl, htight, by decide, (honly _).mpr htight, ?_⟩
  exact (hsame tightSpelling rfl).1.mpr (by decide)

end Path

end ContentMounts
