import Mathlib.Data.List.Basic
import ContentMounts.Proofs.Resource.Linkless

/-!
# What folding keeps of a path

Folding reads the segments of a path one by one onto a stack of names. The stack can be spelled
again, and reading that spelling onto another stack does the same as reading the segments
themselves (`Path.foldl_push_foldSegments`): a name with a `..` behind it comes and goes, whatever
it is put on. Two laws follow from this. Folding twice is folding once, and where a path is taken
from another one, it does not matter whether its own dots are folded before (`fold_join_fold`).

Where there are no links, every `..` of a path takes back a directory that the walk over the path
really enters. The folded path is not longer, so a walk that is possible over the path is possible
over the folded one, and leads to the same node (`Host.HasNoLinks.locate_fold`). All that the folded
form keeps stands together in `fold_lawful`.
-/

namespace ContentMounts

namespace Path

/-! ## Folding as reading onto a stack -/

/-- A name comes and goes. -/
lemma push_push_dotDot (rooted : Bool) (f : Folded) {t : Name} (ht : Name.IsProper t) :
    Folded.push rooted (Folded.push rooted f t) Name.dotDot = f := by
  have hname : Folded.push rooted f t = { f with names := t :: f.names } := by
    rw [Folded.push, if_neg ht.ne_dot, if_neg ht.ne_dotDot]
  rw [hname, Folded.push, if_neg (by decide), if_pos rfl]

/-- One more segment on a stack that does not start at the root does to another stack what it does
there by itself. -/
lemma foldl_push_segments_push (rooted : Bool) (f : Folded) {g : Folded}
    (hg : ∀ t ∈ g.names, Name.IsProper t) (s : Name) :
    (Folded.push false g s).segments.foldl (Folded.push rooted) f =
      Folded.push rooted (g.segments.foldl (Folded.push rooted) f) s := by
  obtain ⟨ups, names⟩ := g
  by_cases hdot : s = Name.dot
  · rw [hdot, Folded.push, if_pos rfl, Folded.push, if_pos rfl]
  by_cases hdots : s = Name.dotDot
  · rw [hdots, Folded.push, if_neg (by decide), if_pos rfl]
    cases names with
    | nil =>
      dsimp only
      rw [if_neg Bool.false_ne_true]
      simp only [Folded.segments, List.reverse_nil, List.append_nil, List.replicate_succ',
        List.foldl_append, List.foldl_cons, List.foldl_nil]
    | cons t names =>
      have ht := hg t List.mem_cons_self
      simp only [Folded.segments, List.reverse_cons, ← List.append_assoc]
      rw [List.foldl_concat, push_push_dotDot rooted _ ht]
  · have hpush : Folded.push false ⟨ups, names⟩ s = ⟨ups, s :: names⟩ := by
      rw [Folded.push, if_neg hdot, if_neg hdots]
    rw [hpush]
    simp only [Folded.segments, List.reverse_cons, ← List.append_assoc]
    rw [List.foldl_concat]

/-- The folded segments of a relative path are read onto a stack as its segments are. -/
lemma foldl_push_foldSegments (rooted : Bool) (f : Folded) {names : List Name}
    (h : ∀ s ∈ names, Name.IsSegment s) :
    (foldSegments false names).foldl (Folded.push rooted) f =
      names.foldl (Folded.push rooted) f := by
  induction names using List.reverseRecOn with
  | nil => rfl
  | append_singleton init s ih =>
    have hinit : ∀ t ∈ init, Name.IsSegment t := fun t ht => h t (List.mem_append_left [s] ht)
    have hproper := isProper_of_mem_foldl_push false hinit (f := ⟨0, []⟩) (by simp)
    have hrest := ih hinit
    rw [foldSegments] at hrest
    rw [foldSegments, List.foldl_append, List.foldl_cons, List.foldl_nil,
      foldl_push_segments_push rooted f hproper, hrest, List.foldl_append, List.foldl_cons,
      List.foldl_nil]

/-- The folded form of a path at the root. -/
lemma fold_of_isAbsolute {p : Path} (habs : p.isAbsolute = true) :
    p.fold = ofSegments true (foldSegments true p.segments) := by rw [fold, habs]

/-- Folding twice is folding once. -/
lemma fold_of_fold (p : Path) : p.fold.fold = p.fold := by
  cases habs : p.isAbsolute with
  | true => exact fold_fold habs
  | false =>
    have hsegments : foldSegments false (foldSegments false p.segments) =
        foldSegments false p.segments := by
      rw [foldSegments, foldl_push_foldSegments false _ isSegment_of_mem_segments, ← foldSegments]
    rw [fold, isAbsolute_fold, segments_fold, habs, hsegments, fold, habs]

/-- Where a relative path is taken from a path at the root, its own dots may be folded before. -/
theorem fold_join_fold {base p : Path} (hbase : base.isAbsolute = true)
    (hp : p.isAbsolute = false) : (base.join p.fold).fold = (base.join p).fold := by
  have hfold : p.fold.isAbsolute = false := (isAbsolute_fold p).trans hp
  have hread : ∀ names, foldSegments true (base.segments ++ names) =
      (names.foldl (Folded.push true) (base.segments.foldl (Folded.push true) ⟨0, []⟩)).segments :=
    fun names => by rw [foldSegments, List.foldl_append]
  have hsegments : foldSegments true (base.join p.fold).segments =
      foldSegments true (base.join p).segments := by
    rw [segments_join hfold, segments_join hp, segments_fold, hp, hread, hread,
      foldl_push_foldSegments true _ isSegment_of_mem_segments]
  rw [fold_of_isAbsolute (isAbsolute_join hbase _), fold_of_isAbsolute (isAbsolute_join hbase _),
    hsegments]

/-! ## The folded form -/

/-- What the segments of a folded path look like: no dots but `..` at the start, and none at all at
the root. -/
structure IsFolded (p : Path) : Prop where
  dots_first : ∃ ups names, p.segments = List.replicate ups Name.dotDot ++ names ∧
    ∀ s ∈ names, Name.IsProper s
  proper : p.isAbsolute = true → ∀ s ∈ p.segments, Name.IsProper s

lemma isFolded_fold (p : Path) : p.fold.IsFolded where
  dots_first := by
    have hproper := isProper_of_mem_foldl_push p.isAbsolute
      (isSegment_of_mem_segments (p := p)) (f := ⟨0, []⟩) (by simp)
    rw [segments_fold]
    exact ⟨_, _, rfl, fun s hs => hproper s (List.mem_reverse.mp hs)⟩
  proper habs := by
    rw [isAbsolute_fold] at habs
    rw [segments_fold, habs]
    exact isProper_of_mem_foldSegments isSegment_of_mem_segments

/-! ## Lengths -/

/-- A collapsed path at the root is as long as its segments weigh, or one byte long. -/
lemma length_ofSegments (names : List Name) :
    (ofSegments true names).bytes.length = max 1 (weight names) := by
  have hbytes : (ofSegments true names).bytes = slash :: List.intercalate [slash] names := rfl
  rw [hbytes]
  cases names with
  | nil => rfl
  | cons s rest =>
    rw [← length_intercalate slash (List.cons_ne_nil s rest), List.length_cons]
    omega

/-- The segments of a path at the root weigh no more than it is long. -/
lemma weight_segments_le {p : Path} (habs : p.isAbsolute = true) :
    weight p.segments ≤ p.bytes.length := by
  obtain ⟨bytes⟩ := p
  obtain ⟨rest, rfl⟩ := List.head?_eq_some_iff.mp (by simpa [isAbsolute] using habs)
  rw [segments_slash_cons, List.length_cons, ← weight_splitOn slash rest]
  exact weight_filter_le _ _

/-- The names on a stack weigh no more than what was read onto it. -/
lemma weight_foldl_push_le (rooted : Bool) (names : List Name) (f : Folded) :
    weight (names.foldl (Folded.push rooted) f).names ≤ weight f.names + weight names := by
  induction names generalizing f with
  | nil => exact Nat.le_refl _
  | cons s rest ih =>
    have hpush : weight (Folded.push rooted f s).names ≤ weight f.names + (s.length + 1) := by
      unfold Folded.push
      split
      · omega
      split
      · split
        · next t names hnames =>
          rw [hnames, weight_cons]
          dsimp only
          omega
        · split
          · omega
          · dsimp only
            omega
      · rw [weight_cons]
        omega
    have hrest := ih (Folded.push rooted f s)
    rw [List.foldl_cons, weight_cons]
    omega

/-- A path at the root is not shorter than its folded form. -/
lemma length_fold_le {p : Path} (habs : p.isAbsolute = true) :
    p.fold.bytes.length ≤ p.bytes.length := by
  have hread := weight_foldl_push_le true p.segments ⟨0, []⟩
  have hups := ups_foldl_push_true p.segments (f := ⟨0, []⟩) rfl
  have hfolded : weight (foldSegments true p.segments) ≤ p.bytes.length := by
    rw [foldSegments, Folded.segments, hups, List.replicate_zero, List.nil_append, weight_reverse]
    have hsegments := weight_segments_le habs
    rw [weight_nil] at hread
    omega
  have hne : 1 ≤ p.bytes.length := by
    obtain ⟨rest, hrest⟩ := List.head?_eq_some_iff.mp (by simpa [isAbsolute] using habs)
    rw [hrest, List.length_cons]
    omega
  rw [fold, habs, length_ofSegments]
  omega

end Path

/-! ## Walks over folded paths -/

namespace Host

variable {h : Host}

/-- A path may be followed as it stands if it is not empty, holds no zero byte and is not too
long. -/
lemma guardPath_eq_ok_iff {p : Path} :
    guardPath p = .ok () ↔ 0 ∉ p.bytes ∧ p.bytes ≠ [] ∧ p.bytes.length < pathLimit := by
  unfold guardPath guardSpelling
  by_cases hzero : 0 ∈ p.bytes
  · simp [hzero, bind, Except.bind]
  · cases hbytes : p.bytes with
    | nil => simp [bind, Except.bind]
    | cons b rest =>
      rw [hbytes] at hzero
      by_cases hlong : pathLimit ≤ (b :: rest).length
      · simp only [List.contains_iff_mem, hzero, if_false, List.isEmpty_cons, Bool.false_eq_true,
          bind, Except.bind, ge_iff_le, hlong, if_true, throw, throwThe, MonadExceptOf.throw]
        simpa using hlong
      · simp only [List.contains_iff_mem, hzero, if_false, List.isEmpty_cons, Bool.false_eq_true,
          bind, Except.bind, ge_iff_le, hlong, pure, Except.pure]
        simpa using hlong

/-- What a walk over the segments of a path reaches is located. -/
lemma locate_of_walks {manner : Manner} (hfresh : manner.fresh = none) {p : Path}
    (habs : p.isAbsolute = true) (hguard : guardPath p = .ok ()) {l : Located}
    (hl : Walks h.root manner linkLimit [] p.segments p.endsInSlash l) :
    h.locate manner p = .ok l := by
  rw [locate, hguard, startOf, if_pos habs]
  exact (walk_eq_ok_iff hfresh).mpr hl

/-- Folding brings no zero byte into a path. -/
lemma zero_notMem_fold {p : Path} (hzero : 0 ∉ p.bytes) : 0 ∉ p.fold.bytes := by
  refine zero_notMem_of_segments fun s hs => ?_
  rw [Path.segments_fold] at hs
  exact Path.forall_mem_foldSegments (by decide) _
    (fun t ht hmem => hzero (Path.mem_bytes_of_mem_segments ht hmem)) s hs

section

variable (hnone : h.HasNoLinks)

include hnone

lemma HasNoLinks.endsInLink_eq_false (names : List Name) : endsInLink h.root names = false := by
  unfold endsInLink
  cases hwalk : walk h.root { followsLast := false } linkLimit [] names false with
  | error e => rfl
  | ok l =>
    have hfound := ((walk_eq_ok_iff rfl).mp hwalk).find?
    obtain ⟨place, n⟩ := l
    cases n with
    | link target => exact absurd hfound (hnone place target)
    | file id => rfl
    | dir modified es => rfl

/-- In what manner links are followed does not matter. -/
lemma HasNoLinks.walks_of_walks {manner manner' : Manner}
    (hrespells : manner'.respells = true → manner.respells = true) {links : Nat}
    {place segments : List Name} {mustBeDir : Bool} {l : Located}
    (hl : Walks h.root manner links place segments mustBeDir l) :
    Walks h.root manner' links place segments mustBeDir l := by
  induction hl with
  | here hn hdir => exact .here hn hdir
  | dot hat _ ih => exact .dot hat ih
  | up hat _ ih => exact .up hat ih
  | name he hnot _ ih => exact .name (he.weaken hrespells) hnot ih
  | follow he _ _ _ _ => exact absurd he.find? (hnone _ _)
  | stop he _ => exact absurd he.find? (hnone _ _)

/-- A walk over a path can be made over the folded path, and leads to the same place. -/
lemma HasNoLinks.walks_fold {manner : Manner} {p : Path} (habs : p.isAbsolute = true) {l : Located}
    (hl : Walks h.root manner linkLimit [] p.segments p.endsInSlash l) :
    Walks h.root manner linkLimit [] p.fold.segments p.fold.endsInSlash l := by
  have hfollows : Walks h.root { manner with followsLast := true } linkLimit []
      ([] ++ p.segments) p.endsInSlash l := hnone.walks_of_walks (by simp) hl
  have hback : ∀ init, init ++ [Name.dotDot] <+: p.segments →
      endsInLink h.root ([] ++ Path.foldSegments true init) = false :=
    fun init _ => hnone.endsInLink_eq_false _
  have hfolded := hfollows.fold rfl (fun _ => rfl) Path.isSegment_of_mem_segments
    (Nat.le_refl linkLimit) hback
  have hsegments : p.fold.segments = Path.foldSegments true p.segments := by
    rw [Path.segments_fold, habs]
  rw [List.nil_append, ← hsegments] at hfolded
  refine hnone.walks_of_walks (by simp) (hfolded.of_isDir rfl fun hends => ?_)
  -- Only the root ends in a separator once it is folded.
  have hnames : l.names = p.fold.segments := by
    rw [hnone.names_eq hl, hsegments, Path.foldSegments_eq_placeFrom]
  have hnil : p.fold.segments = [] := by
    by_contra hne
    have hslash := Path.endsInSlash_ofSegments
      (Path.isSegment_of_mem_foldSegments true Path.isSegment_of_mem_segments) (hsegments ▸ hne) true
    rw [Path.fold, habs, hslash] at hends
    cases hends
  have hfound := hl.find?
  rw [hnames, hnil, Node.find?_nil] at hfound
  rw [← Option.some.inj hfound]
  rfl

/-- What is located over a path is located over the folded path. -/
lemma HasNoLinks.locate_fold {manner : Manner} (hfresh : manner.fresh = none) {p : Path}
    (habs : p.isAbsolute = true) {l : Located} (hl : h.locate manner p = .ok l) :
    h.locate manner p.fold = .ok l := by
  have hguard : guardPath p = .ok () := by
    unfold locate at hl
    obtain ⟨⟨⟩, hguard, -⟩ := exists_of_bind_eq_ok hl
    exact hguard
  obtain ⟨hzero, -, hshort⟩ := guardPath_eq_ok_iff.mp hguard
  have hfold : p.fold.isAbsolute = true := (Path.isAbsolute_fold p).trans habs
  refine locate_of_walks hfresh hfold (guardPath_eq_ok_iff.mpr ⟨zero_notMem_fold hzero, ?_, ?_⟩)
    (hnone.walks_fold habs (walks_of_locate hfresh habs hl))
  · intro hnil
    rw [Path.isAbsolute, hnil] at hfold
    cases hfold
  · exact Nat.lt_of_le_of_lt (Path.length_fold_le habs) hshort

/-- The real path of a path is that of the folded path. -/
lemma HasNoLinks.canonicalize_fold {p c : Path} (habs : p.isAbsolute = true)
    (hc : h.canonicalize p = .ok c) : h.canonicalize p.fold = .ok c := by
  obtain ⟨l, hl, rfl, -⟩ := exists_respelled_of_canonicalize habs hc
  exact canonicalize_of_walks ((Path.isAbsolute_fold p).trans habs)
    (zero_notMem_fold (zero_notMem_of_canonicalize hc)) (Nat.le_refl linkLimit)
    (hnone.walks_fold habs hl)

end

end Host

namespace Path

/-- The folded form of a path has no dots but `..` at the start of a relative path, starts at the
root if the path does, and is its own folded form. It means the same as the path: taken from a path
at the root it is folded to the same path, and where there are no links, what the host finds over
the path, in whatever manner it looks, it finds over the folded form, and under the same real
path. -/
theorem fold_lawful (p : Path) :
    p.fold.IsFolded ∧ p.fold.isAbsolute = p.isAbsolute ∧ p.fold.fold = p.fold ∧
      (∀ base : Path, base.isAbsolute = true → p.isAbsolute = false →
        (base.join p.fold).fold = (base.join p).fold) ∧
      ∀ h : Host, h.HasNoLinks → p.isAbsolute = true →
        (∀ manner : Host.Manner, manner.fresh = none → ∀ l, h.locate manner p = .ok l →
          h.locate manner p.fold = .ok l) ∧
        ∀ c, h.canonicalize p = .ok c → h.canonicalize p.fold = .ok c :=
  ⟨isFolded_fold p, isAbsolute_fold p, fold_of_fold p, fun _ hbase hp => fold_join_fold hbase hp,
    fun _ hnone habs => ⟨fun _ hfresh _ hl => hnone.locate_fold hfresh habs hl,
      fun _ hc => hnone.canonicalize_fold habs hc⟩⟩

/-! ### Round the yard -/

/-- A path that leaves the yard and comes back for the note. -/
def roundYard : Path := ofText "/yard/.././yard//note".toList

/-- A path that leads out of the place it is taken from. -/
def outOfYard : Path := ofText "hedge/.././../yardage".toList

/-- Folded, the first path still leads to the note, and the second one out of the yard. -/
theorem fold_roundYard :
    (∃ l, FileResource.yardHost.locate {} roundYard.fold = .ok l ∧ l.node = .file 0) ∧
      FileResource.yardHost.canonicalize roundYard.fold = .ok (ofText "/yard/note".toList) ∧
      ((ofText "/yard".toList).join outOfYard.fold).fold = ofText "/yardage".toList := by
  obtain ⟨-, -, -, -, hround⟩ := fold_lawful roundYard
  obtain ⟨-, -, -, hout, -⟩ := fold_lawful outOfYard
  obtain ⟨hlocate, hreal⟩ := hround FileResource.yardHost FileResource.hasNoLinks_yardHost rfl
  refine ⟨⟨_, hlocate {} rfl _ rfl, rfl⟩, hreal _ (eq_ok_of_toOption (by decide +kernel)), ?_⟩
  rw [hout (ofText "/yard".toList) rfl (by decide +kernel)]
  decide +kernel

end Path

end ContentMounts
