import ContentMounts.Path
import ContentMounts.Proofs.Text.Split

/-!
# Segments of paths

A path that is spelled from segments has these segments (`segments_ofSegments`), so paths with
single separators can be told by their segments alone. Folding changes the segments only if there
are dots among them, and at the root it leaves none (`isProper_of_mem_foldSegments`).
-/

namespace ContentMounts

/-- A piece between separators: it is not empty and holds no separator. -/
structure Name.IsSegment (s : Name) : Prop where
  ne_nil : s ≠ []
  notMem : Path.slash ∉ s

/-- A segment that is not made of dots. -/
structure Name.IsProper (s : Name) : Prop extends Name.IsSegment s where
  ne_dot : s ≠ Name.dot
  ne_dotDot : s ≠ Name.dotDot

namespace Path

/-- The segments of a path are segments. -/
lemma isSegment_of_mem_segments {p : Path} : ∀ s ∈ p.segments, Name.IsSegment s := by
  intro s hs
  obtain ⟨hpiece, hne⟩ := List.mem_filter.mp hs
  exact ⟨by simpa using hne, notMem_of_mem_splitOn hpiece⟩

/-- What stands in a segment of a path stands in the path. -/
lemma mem_bytes_of_mem_segments {p : Path} {s : Name} (hs : s ∈ p.segments) {b : UInt8}
    (hb : b ∈ s) : b ∈ p.bytes :=
  mem_of_mem_splitOn (List.mem_filter.mp hs).1 hb

/-- What stands in a path is a separator or stands in one of its segments. -/
lemma eq_or_exists_of_mem_bytes {p : Path} {b : UInt8} (hb : b ∈ p.bytes) :
    b = slash ∨ ∃ s ∈ p.segments, b ∈ s := by
  have hpieces : [slash].intercalate (p.bytes.splitOn slash) = p.bytes :=
    List.intercalate_splitOn slash
  rw [← hpieces] at hb
  refine (eq_or_exists_of_mem_intercalate hb).imp_right ?_
  rintro ⟨piece, hpiece, hin⟩
  refine ⟨piece, List.mem_filter.mpr ⟨hpiece, ?_⟩, hin⟩
  simpa using List.ne_nil_of_mem hin

/-- A separator in front of a path adds no segment. -/
lemma segments_slash_cons (bytes : Bytes) : segments ⟨slash :: bytes⟩ = segments ⟨bytes⟩ := by
  rw [segments, segments, List.splitOn_cons_eq_if_modifyHead, if_pos (beq_self_eq_true slash),
    List.filter_cons_of_neg (by simp)]

/-- A path spelled from segments has these segments. -/
lemma segments_ofSegments (rooted : Bool) {names : List Name}
    (h : ∀ s ∈ names, Name.IsSegment s) : (ofSegments rooted names).segments = names := by
  have hjoined : ((List.intercalate [slash] names).splitOn slash).filter (!·.isEmpty) = names := by
    cases names with
    | nil => rfl
    | cons s rest =>
      rw [List.splitOn_intercalate slash (fun l hl => (h l hl).notMem) (List.cons_ne_nil s rest),
        List.filter_eq_self]
      intro l hl
      simpa using (h l hl).ne_nil
  cases rooted with
  | false => exact hjoined
  | true => exact (segments_slash_cons _).trans hjoined

@[simp] lemma isAbsolute_ofSegments_true (names : List Name) :
    (ofSegments true names).isAbsolute = true := rfl

/-- A path spelled from segments without a separator in front does not start at the root. -/
lemma isAbsolute_ofSegments_false {names : List Name} (h : ∀ s ∈ names, Name.IsSegment s) :
    (ofSegments false names).isAbsolute = false := by
  have hhead : (List.intercalate [slash] names).head? ≠ some slash := by
    cases names with
    | nil => simp
    | cons s rest =>
      have hs := h s List.mem_cons_self
      cases s with
      | nil => exact absurd rfl hs.ne_nil
      | cons b s =>
        have hb : b ≠ slash := fun heq => hs.notMem (heq ▸ List.mem_cons_self)
        cases rest <;> simpa [List.intercalate_cons_cons] using hb
  simpa [isAbsolute, ofSegments] using hhead

/-- A relative path that is not empty has segments. -/
lemma segments_ne_nil {p : Path} (h : p.isAbsolute = false) (hne : p.bytes.isEmpty = false) :
    p.segments ≠ [] := by
  obtain ⟨bytes⟩ := p
  cases bytes with
  | nil => cases hne
  | cons b rest =>
    have hb : (b == slash) = false := by simpa [isAbsolute] using h
    obtain ⟨piece, pieces, hsplit⟩ := List.exists_cons_of_ne_nil (List.splitOn_ne_nil slash rest)
    rw [segments, List.splitOn_cons_eq_if_modifyHead, if_neg (by simp [hb]), hsplit,
      List.modifyHead_cons, List.filter_cons_of_pos (by simp)]
    exact List.cons_ne_nil _ _

/-- Whether a path has dots among its segments. -/
def hasDots (p : Path) : Bool := p.segments.any fun s => s == Name.dot || s == Name.dotDot

lemma hasDots_eq_false_iff {p : Path} :
    p.hasDots = false ↔ ∀ s ∈ p.segments, Name.IsProper s := by
  rw [hasDots, List.any_eq_false]
  constructor
  · intro h s hs
    have hdots := h s hs
    simp only [Bool.or_eq_true, beq_iff_eq, not_or] at hdots
    exact ⟨isSegment_of_mem_segments s hs, hdots.1, hdots.2⟩
  · intro h s hs
    simp [(h s hs).ne_dot, (h s hs).ne_dotDot]

/-! ## Collapsing -/

lemma collapse_of_isAbsolute {p : Path} (habs : p.isAbsolute = true) :
    p.collapse = ofSegments true p.segments := by rw [collapse, habs]

@[simp] lemma isAbsolute_collapse (p : Path) : p.collapse.isAbsolute = p.isAbsolute := by
  unfold collapse
  cases h : p.isAbsolute with
  | false => exact isAbsolute_ofSegments_false isSegment_of_mem_segments
  | true => rfl

@[simp] lemma segments_collapse (p : Path) : p.collapse.segments = p.segments :=
  segments_ofSegments p.isAbsolute isSegment_of_mem_segments

lemma intercalate_ne_nil {names : List Name} (h : ∀ s ∈ names, Name.IsSegment s)
    (hne : names ≠ []) : List.intercalate [slash] names ≠ [] := by
  cases names with
  | nil => exact absurd rfl hne
  | cons s rest =>
    have hs := (h s List.mem_cons_self).ne_nil
    cases rest <;> simp [List.intercalate_cons_cons, hs]

/-- What is spelled from segments does not end in a separator. -/
lemma getLast?_intercalate_ne {names : List Name} (h : ∀ s ∈ names, Name.IsSegment s) :
    (List.intercalate [slash] names).getLast? ≠ some slash := by
  induction names with
  | nil => simp
  | cons s rest ih =>
    have hrest := ih fun t ht => h t (List.mem_cons_of_mem s ht)
    cases rest with
    | nil =>
      rw [List.intercalate_singleton]
      exact fun hlast => (h s List.mem_cons_self).notMem (List.mem_of_getLast? hlast)
    | cons t rest =>
      have hne := intercalate_ne_nil (fun u hu => h u (List.mem_cons_of_mem s hu))
        (List.cons_ne_nil t rest)
      rw [List.intercalate_cons_cons, List.getLast?_append,
        Option.or_of_isSome (by simpa using hne)]
      exact hrest

/-- Only the root has a separator at the end of its collapsed spelling. -/
lemma endsInSlash_ofSegments {names : List Name} (h : ∀ s ∈ names, Name.IsSegment s)
    (hne : names ≠ []) (rooted : Bool) : (ofSegments rooted names).endsInSlash = false := by
  have hlast := getLast?_intercalate_ne h
  have hbytes : (ofSegments rooted names).bytes.getLast? =
      (List.intercalate [slash] names).getLast? := by
    rw [ofSegments, List.getLast?_append,
      Option.or_of_isSome (by simpa using intercalate_ne_nil h hne)]
  rw [endsInSlash, hbytes]
  simpa using hlast

/-- No separator of a collapsed path at the root stands behind another one. -/
lemma not_infix_ofSegments {names : List Name} (h : ∀ s ∈ names, Name.IsSegment s) :
    ¬[slash, slash] <:+: (ofSegments true names).bytes := by
  have hbytes : (ofSegments true names).bytes = slash :: List.intercalate [slash] names := rfl
  rw [hbytes, infix_cons_intercalate_iff fun s hs => (h s hs).notMem]
  exact fun hnil => (h [] (List.dropLast_subset names hnil)).ne_nil rfl

/-- Nor does one that is put behind the segments. -/
lemma not_infix_ofSegments_append {names : List Name} (h : ∀ s ∈ names, Name.IsSegment s)
    (hne : names ≠ []) : ¬[slash, slash] <:+: (ofSegments true names).bytes ++ [slash] := by
  have hbytes : (ofSegments true names).bytes ++ [slash] =
      slash :: List.intercalate [slash] (names ++ [[]]) := by
    rw [intercalate_concat hne]
    rfl
  have hpieces : ∀ piece ∈ names ++ [[]], slash ∉ piece := by
    intro piece hpiece
    rcases List.mem_append.mp hpiece with hname | hnil
    · exact (h piece hname).notMem
    · rw [List.mem_singleton.mp hnil]
      exact List.not_mem_nil
  rw [hbytes, infix_cons_intercalate_iff hpieces, List.dropLast_concat]
  exact fun hnil => (h [] hnil).ne_nil rfl

/-- A path at the root in which no separator stands behind another one is collapsed, but for a
separator at its end. -/
lemma eq_collapse_or {p : Path} (habs : p.isAbsolute = true)
    (hsingle : ¬[slash, slash] <:+: p.bytes) :
    p = p.collapse ∨ p.segments ≠ [] ∧ p = ⟨p.collapse.bytes ++ [slash]⟩ := by
  obtain ⟨bytes⟩ := p
  obtain ⟨rest, rfl⟩ := List.head?_eq_some_iff.mp (by simpa [isAbsolute] using habs)
  have hrest : List.intercalate [slash] (rest.splitOn slash) = rest :=
    List.intercalate_splitOn slash
  dsimp only at hsingle
  rw [← hrest, infix_cons_intercalate_iff fun _ => notMem_of_mem_splitOn] at hsingle
  rw [collapse_of_isAbsolute habs, segments_slash_cons, segments]
  refine (intercalate_filter_or slash hsingle).imp (fun heq => ?_) (And.imp_right fun heq => ?_)
  · rw [ofSegments, ← heq, hrest]
    rfl
  · conv_lhs => rw [← hrest, heq]
    rfl

/-! ## Folding -/

/-- Proper segments are pushed one on the other. -/
lemma foldl_push_of_isProper (rooted : Bool) {names : List Name}
    (h : ∀ s ∈ names, Name.IsProper s) (f : Folded) :
    names.foldl (Folded.push rooted) f = ⟨f.ups, names.reverse ++ f.names⟩ := by
  induction names generalizing f with
  | nil => rfl
  | cons s rest ih =>
    have hs := h s List.mem_cons_self
    have hpush : Folded.push rooted f s = ⟨f.ups, s :: f.names⟩ := by
      rw [Folded.push, if_neg hs.ne_dot, if_neg hs.ne_dotDot]
    rw [List.foldl_cons, hpush, ih fun t ht => h t (List.mem_cons_of_mem s ht)]
    simp

/-- Where there are no dots, folding changes nothing. -/
lemma foldSegments_of_isProper (rooted : Bool) {names : List Name}
    (h : ∀ s ∈ names, Name.IsProper s) : foldSegments rooted names = names := by
  rw [foldSegments, foldl_push_of_isProper rooted h]
  simp [Folded.segments]

/-- No names are pushed but proper ones. -/
lemma isProper_of_mem_foldl_push (rooted : Bool) {names : List Name}
    (h : ∀ s ∈ names, Name.IsSegment s) {f : Folded} (hf : ∀ s ∈ f.names, Name.IsProper s) :
    ∀ s ∈ (names.foldl (Folded.push rooted) f).names, Name.IsProper s := by
  induction names generalizing f with
  | nil => exact hf
  | cons s rest ih =>
    refine ih (fun t ht => h t (List.mem_cons_of_mem s ht)) ?_
    unfold Folded.push
    split
    · exact hf
    · next hdot =>
      split
      · split
        · next t above hnames =>
          rw [hnames] at hf
          exact fun u hu => hf u (List.mem_cons_of_mem t hu)
        · split
          · exact hf
          · exact hf
      · next hdotDot =>
        intro t ht
        rcases List.mem_cons.mp ht with rfl | hold
        · exact ⟨h t List.mem_cons_self, hdot, hdotDot⟩
        · exact hf t hold

/-- At the root no `..` is kept. -/
lemma ups_foldl_push_true (names : List Name) {f : Folded} (hups : f.ups = 0) :
    (names.foldl (Folded.push true) f).ups = 0 := by
  induction names generalizing f with
  | nil => exact hups
  | cons s rest ih =>
    refine ih ?_
    unfold Folded.push
    split
    · exact hups
    · split
      · split
        · exact hups
        · exact hups
      · exact hups

/-- The folded segments of a path at the root are proper. -/
lemma isProper_of_mem_foldSegments {names : List Name} (h : ∀ s ∈ names, Name.IsSegment s) :
    ∀ s ∈ foldSegments true names, Name.IsProper s := by
  have hproper := isProper_of_mem_foldl_push true h (f := ⟨0, []⟩) (by simp)
  have hups := ups_foldl_push_true names (f := ⟨0, []⟩) rfl
  intro s hs
  rw [foldSegments, Folded.segments, hups] at hs
  exact hproper s (by simpa using hs)

/-- What one more segment does to the folded ones: it comes behind them, it is a `.` and does
nothing, it is a `..` and takes the last name away, or it is a `..` at the root and stays there. -/
lemma cases_foldSegments_concat (rooted : Bool) {init : List Name} {s : Name}
    (h : ∀ t ∈ init, Name.IsSegment t) :
    foldSegments rooted (init ++ [s]) = foldSegments rooted init ++ [s] ∨
      (s = Name.dot ∧ foldSegments rooted (init ++ [s]) = foldSegments rooted init) ∨
      (s = Name.dotDot ∧ ∃ t, Name.IsProper t ∧
        foldSegments rooted init = foldSegments rooted (init ++ [s]) ++ [t]) ∨
      (s = Name.dotDot ∧ rooted = true ∧ foldSegments rooted init = [] ∧
        foldSegments rooted (init ++ [s]) = []) := by
  have hproper := isProper_of_mem_foldl_push rooted h (f := ⟨0, []⟩) (by simp)
  have hups := ups_foldl_push_true init (f := ⟨0, []⟩) rfl
  unfold foldSegments
  rw [List.foldl_append, List.foldl_cons, List.foldl_nil]
  generalize hfold : init.foldl (Folded.push rooted) ⟨0, []⟩ = f at hproper ⊢
  obtain ⟨ups, names⟩ := f
  unfold Folded.push
  split
  · next hdot => exact .inr (.inl ⟨hdot, rfl⟩)
  · split
    · next hdots =>
      cases names with
      | cons t above =>
        refine .inr (.inr (.inl ⟨hdots, t, hproper t List.mem_cons_self, ?_⟩))
        simp [Folded.segments]
      | nil =>
        cases rooted with
        | true =>
          rw [hfold] at hups
          obtain rfl : ups = 0 := hups
          exact .inr (.inr (.inr ⟨hdots, rfl, rfl, rfl⟩))
        | false =>
          refine .inl ?_
          simp [Folded.segments, List.replicate_succ', hdots]
    · exact .inl (by simp [Folded.segments])

/-- The folded segments of a path are among its segments, but for `..`. -/
lemma forall_mem_foldSegments {P : Name → Prop} (hup : P Name.dotDot) (rooted : Bool)
    {names : List Name} (h : ∀ s ∈ names, P s) : ∀ s ∈ foldSegments rooted names, P s := by
  have hfold : ∀ f : Folded, (∀ s ∈ f.names, P s) →
      ∀ s ∈ (names.foldl (Folded.push rooted) f).names, P s := by
    induction names with
    | nil => exact fun _ hf => hf
    | cons t rest ih =>
      intro f hf
      refine ih (fun u hu => h u (List.mem_cons_of_mem t hu)) _ ?_
      unfold Folded.push
      split
      · exact hf
      · split
        · split
          · next u above hnames =>
            rw [hnames] at hf
            exact fun s hs => hf s (List.mem_cons_of_mem u hs)
          · split
            · exact hf
            · exact hf
        · intro s hs
          rcases List.mem_cons.mp hs with rfl | hold
          · exact h s List.mem_cons_self
          · exact hf s hold
  intro s hs
  rw [foldSegments, Folded.segments] at hs
  rcases List.mem_append.mp hs with hdots | hname
  · rw [List.eq_of_mem_replicate hdots]
    exact hup
  · exact hfold ⟨0, []⟩ (by simp) s (List.mem_reverse.mp hname)

/-- The folded segments of a path are segments. -/
lemma isSegment_of_mem_foldSegments (rooted : Bool) {names : List Name}
    (h : ∀ s ∈ names, Name.IsSegment s) : ∀ s ∈ foldSegments rooted names, Name.IsSegment s :=
  forall_mem_foldSegments ⟨by decide, by decide⟩ rooted h

@[simp] lemma isAbsolute_fold (p : Path) : p.fold.isAbsolute = p.isAbsolute := by
  unfold fold
  cases p.isAbsolute with
  | false =>
    exact isAbsolute_ofSegments_false
      (isSegment_of_mem_foldSegments false isSegment_of_mem_segments)
  | true => rfl

lemma segments_fold (p : Path) : p.fold.segments = foldSegments p.isAbsolute p.segments :=
  segments_ofSegments p.isAbsolute
    (isSegment_of_mem_foldSegments p.isAbsolute isSegment_of_mem_segments)

/-- A path at the root without dots is its own folded form. -/
lemma fold_ofSegments {names : List Name} (h : ∀ s ∈ names, Name.IsProper s) :
    (ofSegments true names).fold = ofSegments true names := by
  rw [fold, isAbsolute_ofSegments_true, segments_ofSegments true fun s hs => (h s hs).toIsSegment,
    foldSegments_of_isProper true h]

/-- Folding a path at the root twice is folding it once. -/
lemma fold_fold {p : Path} (h : p.isAbsolute = true) : p.fold.fold = p.fold := by
  have hfold : p.fold = ofSegments true (foldSegments true p.segments) := by rw [fold, h]
  rw [hfold, fold_ofSegments (isProper_of_mem_foldSegments isSegment_of_mem_segments)]

/-- Folding keeps the segments of a path at the root exactly if there are no dots. -/
lemma sameSegments_fold_iff {p : Path} (h : p.isAbsolute = true) :
    p.sameSegments p.fold = true ↔ ∀ s ∈ p.segments, Name.IsProper s := by
  rw [sameSegments, beq_iff_eq, segments_fold, h]
  constructor
  · intro heq
    rw [heq]
    exact isProper_of_mem_foldSegments isSegment_of_mem_segments
  · intro hproper
    rw [foldSegments_of_isProper true hproper]

/-- The parts of a path without dots are its segments. -/
lemma components_ofSegments {names : List Name} (h : ∀ s ∈ names, Name.IsProper s) :
    (ofSegments true names).components = names := by
  rw [components, isAbsolute_ofSegments_true, if_pos rfl,
    segments_ofSegments true fun s hs => (h s hs).toIsSegment, List.filter_eq_self]
  intro s hs
  simpa using (h s hs).ne_dot

/-- A path without dots starts with another one exactly if its segments do. -/
lemma startsWith_ofSegments_iff {xs ys : List Name} (hx : ∀ s ∈ xs, Name.IsProper s)
    (hy : ∀ s ∈ ys, Name.IsProper s) :
    (ofSegments true xs).startsWith (ofSegments true ys) = true ↔ ys <+: xs := by
  rw [startsWith, components_ofSegments hx, components_ofSegments hy, Bool.and_eq_true,
    List.isPrefixOf_iff_prefix]
  exact and_iff_right rfl

/-- Paths from one start with the same segments have the same parts. -/
lemma sameComponents_of_segments {p q : Path} (habs : p.isAbsolute = q.isAbsolute)
    (h : p.segments = q.segments) : p.sameComponents q = true := by
  rw [sameComponents, components, components, habs, h, beq_self_eq_true, beq_self_eq_true,
    Bool.and_self]

/-- A path with the parts of a path without dots has its segments, and dots that say nothing. -/
lemma filter_segments_of_sameComponents {p q : Path} (h : p.sameComponents q = true)
    (hp : p.isAbsolute = true) (hq : q.isAbsolute = true)
    (hproper : ∀ s ∈ q.segments, Name.IsProper s) :
    p.segments.filter (· != Name.dot) = q.segments := by
  have hparts : p.components = q.components := by
    simpa [sameComponents, hp, hq] using h
  have hself : q.segments.filter (· != Name.dot) = q.segments := by
    rw [List.filter_eq_self]
    intro s hs
    simpa using (hproper s hs).ne_dot
  rwa [components, if_pos hp, components, if_pos hq, hself] at hparts

/-- Each dot that says nothing is a byte of the path. -/
lemma length_flatten_filter_dot (names : List Name) :
    (names.filter (· != Name.dot)).flatten.length + names.count Name.dot =
      names.flatten.length := by
  induction names with
  | nil => rfl
  | cons s names ih =>
    by_cases hs : s = Name.dot
    · have hlength : Name.dot.length = 1 := rfl
      rw [hs, List.filter_cons_of_neg (by simp), List.count_cons_self, List.flatten_cons,
        List.length_append]
      omega
    · rw [List.filter_cons_of_pos (by simpa using hs), List.count_cons_of_ne hs,
        List.flatten_cons, List.flatten_cons, List.length_append, List.length_append]
      omega

/-! ## Joining -/

/-- The segments on both sides of a separator. -/
lemma segments_append_slash (xs ys : Bytes) :
    segments ⟨xs ++ slash :: ys⟩ = segments ⟨xs⟩ ++ segments ⟨ys⟩ := by
  simp only [segments]
  rw [List.splitOn_append_cons_of_beq xs ys (beq_self_eq_true slash), List.filter_append]

/-- A relative path adds its segments to those of a path. -/
lemma segments_join {p q : Path} (h : q.isAbsolute = false) :
    (p.join q).segments = p.segments ++ q.segments := by
  rw [join, if_neg (by simp [h])]
  split
  · next hends =>
    rcases Bool.or_eq_true .. |>.mp hends with hempty | hslash
    · have hbytes : p = ⟨[]⟩ := by
        cases p
        simpa using hempty
      rw [hbytes]
      rfl
    · obtain ⟨init, hinit⟩ := List.getLast?_eq_some_iff.mp (by simpa [endsInSlash] using hslash)
      have hp : p = ⟨init ++ [slash]⟩ := by
        cases p
        simpa using hinit
      have hnil : segments ⟨[]⟩ = [] := rfl
      rw [hp, segments_append_slash, hnil, List.append_nil, List.append_assoc,
        List.singleton_append, segments_append_slash]
  · exact segments_append_slash p.bytes q.bytes

/-- What is taken from a path at the root is at the root. -/
lemma isAbsolute_join {p : Path} (h : p.isAbsolute = true) (q : Path) :
    (p.join q).isAbsolute = true := by
  have hhead : p.bytes.head? = some slash := by simpa [isAbsolute] using h
  obtain ⟨rest, hrest⟩ := List.head?_eq_some_iff.mp hhead
  unfold join
  split
  · assumption
  · split <;> simp [isAbsolute, hrest]

/-- What is taken from a path ends as it does itself. -/
lemma endsInSlash_join (p : Path) {q : Path} (h : q.bytes ≠ []) :
    (p.join q).endsInSlash = q.endsInSlash := by
  unfold join
  split
  · rfl
  · have hlast : ∀ xs : Bytes, (xs ++ q.bytes).getLast? = q.bytes.getLast? := by
      intro xs
      rw [List.getLast?_append, Option.or_of_isSome (by simpa using h)]
    split
    · rw [endsInSlash, endsInSlash, hlast]
    · rw [endsInSlash, endsInSlash, ← List.singleton_append, ← List.append_assoc, hlast]

/-- The directory above a path without dots. -/
lemma parent_ofSegments {init : List Name} {s : Name}
    (h : ∀ t ∈ init ++ [s], Name.IsProper t) :
    (ofSegments true (init ++ [s])).parent = some (ofSegments true init) := by
  have hkeep : ∀ names : List Name, (∀ t ∈ names, Name.IsProper t) →
      names.dropWhile (· == Name.dot) = names := by
    intro names hnames
    cases names with
    | nil => rfl
    | cons t rest =>
      exact List.dropWhile_cons_of_neg (by simpa using (hnames t List.mem_cons_self).ne_dot)
  have hreverse : ∀ t ∈ (init ++ [s]).reverse, Name.IsProper t := by
    intro t ht
    exact h t (List.mem_reverse.mp ht)
  have hinit : ∀ t ∈ init.reverse, Name.IsProper t := by
    intro t ht
    exact h t (List.mem_append_left [s] (List.mem_reverse.mp ht))
  unfold parent
  rw [segments_ofSegments true fun t ht => (h t ht).toIsSegment]
  dsimp only
  rw [hkeep _ hreverse, List.reverse_append, List.reverse_singleton, List.singleton_append]
  dsimp only
  rw [hkeep _ hinit, List.reverse_reverse, isAbsolute_ofSegments_true]

end Path

end ContentMounts
