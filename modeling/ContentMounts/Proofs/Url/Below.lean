import ContentMounts.Proofs.Url.File

/-!
# What is written behind a path

A path made of segments goes on where it ends. Each `..` that is written behind it takes a segment
away, so the path stays in front as long as there is a segment behind it to take (`StaysBelow`). What
the segments of a path have laid on the stack is then left in place (`Trail.read_of_staysBelow` for
one more segment, `foldl_read_of_staysBelow` for all of them). In the path of a file the letter of a
drive that comes first takes away the host as well (`FileTrail.host_foldl_read`).
-/

namespace ContentMounts

namespace Url

/-! ## Segments behind a path -/

/-- Whether no `..` among some segments takes away more than the segments before it have laid, given
the number of those that lie there. -/
def StaysBelow : Nat → List Text → Bool
  | _, [] => true
  | depth, piece :: rest =>
    if isDoubleDot piece then depth != 0 && StaysBelow (depth - 1) rest
    else if isSingleDot piece then StaysBelow depth rest
    else StaysBelow (depth + 1) rest

/-- The path over the segments of a stack, with a slash behind each. -/
def slashed (stack : List Text) : Text := '/' :: stack.reverse.flatMap (· ++ ['/'])

lemma ascend_append {more : List Text} (base : List Text) (h : more ≠ []) :
    ∃ left, ascend (more ++ base) = left ++ base ∧ more.length ≤ left.length + 1 := by
  obtain ⟨s, rest, rfl⟩ := List.exists_cons_of_ne_nil h
  rw [List.cons_append, ascend]
  split
  · exact ⟨s :: rest, rfl, Nat.le_succ _⟩
  · exact ⟨rest, rfl, Nat.le_refl _⟩

/-- A segment that stays below a stack leaves it in place. -/
lemma Trail.read_of_staysBelow {piece : Text} {pieces more base : List Text} {dots : Bool}
    {depth : Nat} (hstands : Percent.Stands pathSet piece) (hdepth : depth ≤ more.length)
    (hstays : StaysBelow depth (piece :: pieces) = true) :
    ∃ depth' more' dots', Trail.read ⟨more ++ base, dots⟩ piece = ⟨more' ++ base, dots'⟩ ∧
      depth' ≤ more'.length ∧ StaysBelow depth' pieces = true ∧ (more' ≠ [] ∨ dots' = true) := by
  rw [StaysBelow] at hstays
  rw [Trail.read, Percent.encode_of_stands hstands]
  dsimp only
  split at hstays
  · next hdouble =>
    obtain ⟨hsome, hstays⟩ := Bool.and_eq_true _ _ |>.mp hstays
    have hpos : 0 < depth := Nat.pos_of_ne_zero (by simpa using hsome)
    obtain ⟨left, hleft, hlength⟩ := ascend_append base
      (List.ne_nil_of_length_pos (Nat.lt_of_lt_of_le hpos hdepth))
    rw [if_pos hdouble, hleft]
    exact ⟨depth - 1, left, true, rfl, by omega, hstays, .inr rfl⟩
  · next hdouble =>
    rw [if_neg hdouble]
    split at hstays
    · next hsingle =>
      rw [if_pos hsingle]
      exact ⟨depth, more, true, rfl, hdepth, hstays, .inr rfl⟩
    · next hsingle =>
      rw [if_neg hsingle]
      exact ⟨depth + 1, piece :: more, false, rfl, Nat.succ_le_succ hdepth, hstays,
        .inl (List.cons_ne_nil piece more)⟩

/-- Segments that stay below a stack leave it in place, and there is something behind it. -/
lemma foldl_read_of_staysBelow {pieces : List Text} {base : List Text}
    (hstands : ∀ piece ∈ pieces, Percent.Stands pathSet piece) {depth : Nat} {more : List Text}
    {dots : Bool} (hdepth : depth ≤ more.length) (hstays : StaysBelow depth pieces = true)
    (hsome : pieces = [] → more ≠ [] ∨ dots = true) :
    ∃ rest, rest ≠ [] ∧
      (pieces.foldl Trail.read ⟨more ++ base, dots⟩).segments = base.reverse ++ rest := by
  induction pieces generalizing depth more dots with
  | nil =>
    rw [List.foldl_nil, Trail.segments]
    cases dots with
    | true => exact ⟨more.reverse ++ [[]], by simp, by simp⟩
    | false =>
      refine ⟨more.reverse, ?_, by simp⟩
      rcases hsome rfl with hmore | hdots
      · simpa using hmore
      · cases hdots
  | cons piece pieces ih =>
    obtain ⟨depth', more', dots', hread, hdepth', hstays', hsome'⟩ :=
      @Trail.read_of_staysBelow piece pieces more base dots depth
        (hstands piece List.mem_cons_self) hdepth hstays
    rw [List.foldl_cons, hread]
    exact ih (fun p hp => hstands p (List.mem_cons_of_mem piece hp)) hdepth' hstays' fun _ => hsome'

/-- What stays below a stack is written behind it. -/
lemma slashed_prefix_of_staysBelow {k : SchemeKind} {w : Text} (hw : Percent.Stands pathSet w)
    (hstays : StaysBelow 0 (w.splitOnP k.isSlash) = true) (base : List Text) (dots : Bool) :
    slashed base <+:
      joinSegments ((w.splitOnP k.isSlash).foldl Trail.read ⟨base, dots⟩).segments := by
  obtain ⟨rest, hne, hsegments⟩ := @foldl_read_of_staysBelow _ base
    (fun piece hpiece c hc => hw c (mem_of_mem_splitOnP hpiece hc)) 0 [] dots (Nat.zero_le _) hstays
    fun hnil => absurd hnil (List.splitOnP_ne_nil _ _)
  rw [List.nil_append] at hsegments
  rw [hsegments, joinSegments, slashed, intercalate_append _ hne]
  exact List.cons_prefix_cons.mpr ⟨rfl, List.prefix_append _ _⟩

/-- The path over a stack is the joined path of its segments with a slash at the end. -/
lemma joinSegments_append_slash {stack : List Text} (h : stack ≠ []) :
    joinSegments stack.reverse ++ ['/'] = slashed stack := by
  have hreverse : stack.reverse ≠ [] := by simpa using h
  obtain ⟨front, last, hlast⟩ := List.eq_nil_or_concat' stack.reverse |>.resolve_left hreverse
  rw [joinSegments, slashed, hlast,
    intercalate_append front (List.cons_ne_nil last []), List.intercalate_singleton,
    List.flatMap_append]
  simp

lemma joinSegments_concat_nil (stack : List Text) :
    joinSegments (stack.reverse ++ [[]]) = slashed stack := by
  rw [joinSegments, intercalate_append _ (List.cons_ne_nil [] []), List.intercalate_singleton,
    List.append_nil, slashed]

lemma getLast?_slashed (stack : List Text) : (slashed stack).getLast? = some '/' := by
  cases stack with
  | nil => rfl
  | cons s rest =>
    have hcons : slashed (s :: rest) = (slashed rest ++ s) ++ ['/'] := by simp [slashed]
    rw [hcons, List.getLast?_concat]

section

variable {k : SchemeKind} {t w : Text} (hw : Percent.Stands pathSet w)
  (hstays : StaysBelow 0 (w.splitOnP k.isSlash) = true)

include hw hstays

/-- A path that ends where a segment starts stays in front of what is written behind it. -/
lemma readPath_prefix_append (ht : t = [] ∨ t.getLast? = some '/') :
    readPath k t <+: readPath k (t ++ w) := by
  rcases ht with rfl | hlast
  · exact slashed_prefix_of_staysBelow hw hstays [] false
  · obtain ⟨front, rfl⟩ := List.getLast?_eq_some_iff.mp hlast
    have hslash : k.isSlash '/' = true := rfl
    have hread : ∀ trail : Trail, trail.read [] = ⟨[] :: trail.stack, false⟩ := fun _ => rfl
    rw [List.append_assoc, List.singleton_append, readPath, readPath,
      List.splitOnP_append_cons _ _ hslash, List.splitOnP_append_cons _ _ hslash,
      List.foldl_append, List.foldl_append, List.splitOnP_nil, List.foldl_cons, List.foldl_nil,
      hread, Trail.segments, if_neg Bool.false_ne_true, List.reverse_cons, joinSegments_concat_nil]
    exact slashed_prefix_of_staysBelow hw hstays _ _

/-- A path that ends inside a segment stays in front of what is written behind a slash. -/
lemma readPath_prefix_append_slash (ht : (readPath k t).getLast? ≠ some '/') :
    readPath k t ++ ['/'] <+: readPath k (t ++ '/' :: w) := by
  have hslash : k.isSlash '/' = true := rfl
  have hprefix := slashed_prefix_of_staysBelow hw hstays
    ((t.splitOnP k.isSlash).foldl Trail.read Trail.empty).stack
    ((t.splitOnP k.isSlash).foldl Trail.read Trail.empty).endsInDots
  rw [readPath] at ht ⊢
  rw [readPath, List.splitOnP_append_cons _ _ hslash, List.foldl_append]
  generalize (t.splitOnP k.isSlash).foldl Trail.read Trail.empty = trail at ht hprefix ⊢
  obtain ⟨stack, dots⟩ := trail
  rw [Trail.segments] at ht ⊢
  cases dots with
  | true =>
    rw [if_pos rfl, List.reverse_cons, joinSegments_concat_nil] at ht
    exact absurd (getLast?_slashed stack) ht
  | false =>
    rw [if_neg Bool.false_ne_true] at ht ⊢
    rcases eq_or_ne stack [] with rfl | hne
    · exact absurd rfl ht
    · rw [joinSegments_append_slash hne]
      exact hprefix

end

/-- Whether a path goes on behind what is written of it and `s`: with the segment that it ends
before, or with a new one. -/
def Joins (k : SchemeKind) (t s : Text) : Prop :=
  (s = [] ∧ (t = [] ∨ t.getLast? = some '/')) ∨
    (s = ['/'] ∧ (readPath k t).getLast? ≠ some '/')

lemma Joins.front_readPath {k : SchemeKind} {t s w : Text} (h : Joins k t s)
    (hw : Percent.Stands pathSet w) (hstays : StaysBelow 0 (w.splitOnP k.isSlash) = true) :
    readPath k t ++ s <+: readPath k (t ++ (s ++ w)) := by
  rcases h with ⟨rfl, ht⟩ | ⟨rfl, ht⟩
  · rw [List.append_nil, List.nil_append]
    exact readPath_prefix_append hw hstays ht
  · exact readPath_prefix_append_slash hw hstays ht

lemma getLast?_of_suffix {t p : Text} {c : Char} (h : p <:+ t) (hlast : t.getLast? = some c) :
    p = [] ∨ p.getLast? = some c := by
  obtain ⟨front, rfl⟩ := h
  rcases eq_or_ne p [] with hnil | hne
  · exact .inl hnil
  · rw [List.getLast?_append, Option.or_of_isSome (by simpa using hne)] at hlast
    exact .inr hlast

/-! ## Behind the path of a file -/

namespace FileTrail

variable {pieces base : List Text} {host : Text}

/-- Over segments that stay in place a file has no drive. -/
lemma foldl_read_of_staysBelow (hstands : ∀ piece ∈ pieces, Percent.Stands pathSet piece)
    (hbase : base ≠ []) {depth : Nat} {more : List Text} {dots : Bool}
    (hdepth : depth ≤ more.length) (hstays : StaysBelow depth pieces = true) :
    pieces.foldl FileTrail.read ⟨host, ⟨more ++ base, dots⟩⟩ =
      ⟨host, pieces.foldl Trail.read ⟨more ++ base, dots⟩⟩ := by
  induction pieces generalizing depth more dots with
  | nil => rfl
  | cons piece pieces ih =>
    have hpiece := hstands piece List.mem_cons_self
    obtain ⟨depth', more', dots', hread, hdepth', hstays', -⟩ :=
      @Trail.read_of_staysBelow piece pieces more base dots depth hpiece hdepth hstays
    have hstack : more ++ base ≠ [] := by simp [hbase]
    rw [List.foldl_cons, List.foldl_cons,
      FileTrail.read_behind hstack (withoutBreaks_of_stands hpiece), hread]
    exact ih (fun p hp => hstands p (List.mem_cons_of_mem piece hp)) hdepth' hstays'

/-- Only in front of a drive a host is lost. -/
lemma host_foldl_read {f : FileTrail} (hstands : ∀ piece ∈ pieces, Percent.Stands pathSet piece)
    (h : f.host = [] ∨ ∀ piece ∈ pieces, isDriveLetter piece = false) :
    (pieces.foldl FileTrail.read f).host = f.host := by
  induction pieces generalizing f with
  | nil => rfl
  | cons piece pieces ih =>
    have hpiece := hstands piece List.mem_cons_self
    have hfile : (f.read piece).host = f.host := by
      unfold FileTrail.read
      dsimp only
      split
      · split
        · rfl
        · split
          · next hdrive =>
            rw [withoutBreaks_of_stands hpiece] at hdrive
            rcases h with hhost | hnone
            · exact hhost.symm
            · rw [hnone piece List.mem_cons_self] at hdrive
              cases hdrive
          · rfl
      · rfl
    rw [List.foldl_cons, ih (fun p hp => hstands p (List.mem_cons_of_mem piece hp))
      (h.imp hfile.trans fun hnone p hp => hnone p (List.mem_cons_of_mem piece hp)), hfile]

/-- The path over a stack of segments, where slashes at the start count as one. -/
def below (stack : List Text) : Text := '/' :: (slashed stack).dropWhile (· == '/')

lemma getLast?_below (stack : List Text) : (below stack).getLast? = some '/' := by
  rw [below]
  rcases getLast?_of_suffix (List.dropWhile_suffix (· == '/')) (getLast?_slashed stack) with
    hnil | hlast
  · rw [hnil]
    rfl
  · rw [List.getLast?_cons, hlast]
    rfl

/-- What is written below a file stays below it. -/
lemma below_prefix {f : FileTrail} {w : Text} (hw : Percent.Stands pathSet w)
    (hstays : StaysBelow 0 (w.splitOnP SchemeKind.file.isSlash) = true)
    (h : f.host = [] ∨ f.trail.stack ≠ [] ∨
      ∀ piece ∈ w.splitOnP SchemeKind.file.isSlash, isDriveLetter piece = false) :
    ((w.splitOnP SchemeKind.file.isSlash).foldl FileTrail.read f).host = f.host ∧
      below f.trail.stack <+:
        ((w.splitOnP SchemeKind.file.isSlash).foldl FileTrail.read f).path := by
  have hstands : ∀ piece ∈ w.splitOnP SchemeKind.file.isSlash, Percent.Stands pathSet piece :=
    fun piece hpiece c hc => hw c (mem_of_mem_splitOnP hpiece hc)
  obtain ⟨host, stack, dots⟩ := f
  rcases eq_or_ne stack [] with rfl | hne
  · refine ⟨host_foldl_read hstands (h.imp_right fun hrest => hrest.resolve_left (absurd rfl)), ?_⟩
    exact ⟨_, rfl⟩
  · have hfold :=
      @foldl_read_of_staysBelow _ stack host hstands hne 0 [] dots (Nat.zero_le _) hstays
    rw [List.nil_append] at hfold
    rw [hfold]
    refine ⟨rfl, ?_⟩
    obtain ⟨rest, hrest⟩ := @slashed_prefix_of_staysBelow .file w hw hstays stack dots
    rw [below, path, ← hrest]
    exact List.cons_prefix_cons.mpr ⟨rfl, Text.dropWhile_prefix_append _ _ _⟩

end FileTrail

/-- What has been read of the path of a file. -/
def readSegments (start t : Text) : FileTrail :=
  (t.splitOnP SchemeKind.file.isSlash).foldl FileTrail.read ⟨start, Trail.empty⟩

lemma readFilePath_eq (start t : Text) :
    readFilePath start t = ((readSegments start t).host, (readSegments start t).path) := rfl

lemma readSegments_append_slash (start t w : Text) :
    readSegments start (t ++ '/' :: w) =
      (w.splitOnP SchemeKind.file.isSlash).foldl FileTrail.read (readSegments start t) := by
  have hslash : SchemeKind.file.isSlash '/' = true := rfl
  rw [readSegments, List.splitOnP_append_cons _ _ hslash, List.foldl_append]
  rfl

lemma FileTrail.read_nil (f : FileTrail) : f.read [] = ⟨f.host, ⟨[] :: f.trail.stack, false⟩⟩ := by
  have hread : f.trail.read [] = ⟨[] :: f.trail.stack, false⟩ := rfl
  unfold FileTrail.read
  dsimp only
  split <;> exact congrArg (FileTrail.mk f.host) hread

lemma FileTrail.path_read_nil (f : FileTrail) : (f.read []).path = below f.trail.stack := by
  rw [FileTrail.read_nil, path, Trail.segments, if_neg Bool.false_ne_true, List.reverse_cons,
    joinSegments_concat_nil, below]

/-- A path that does not end in a slash does so behind one. -/
lemma FileTrail.path_append_slash {f : FileTrail} (h : f.path.getLast? ≠ some '/') :
    f.path ++ ['/'] = below f.trail.stack := by
  obtain ⟨host, stack, dots⟩ := f
  rw [path, Trail.segments] at h ⊢
  cases dots with
  | true =>
    rw [if_pos rfl, List.reverse_cons, joinSegments_concat_nil] at h
    exact absurd (getLast?_below stack) h
  | false =>
    rw [if_neg Bool.false_ne_true] at h ⊢
    have hstack : stack ≠ [] := by
      rintro rfl
      exact h rfl
    have hsome : (joinSegments stack.reverse).dropWhile (· == '/') ≠ [] := by
      intro hnil
      rw [hnil] at h
      exact h rfl
    rw [below, ← joinSegments_append_slash hstack, List.dropWhile_append,
      if_neg (by simpa using hsome), List.cons_append]

/-- What is written behind the path of a file stays below it. -/
lemma readFilePath_append_prefix {start t s w : Text} (hw : Percent.Stands pathSet w)
    (hstays : StaysBelow 0 (w.splitOnP SchemeKind.file.isSlash) = true)
    (hs : (s = [] ∧ (t = [] ∨ t.getLast? = some '/')) ∨
      (s = ['/'] ∧ (readFilePath start t).2.getLast? ≠ some '/'))
    (hkeeps : (readFilePath start t).1 = [] ∨ (readFilePath start t).2 ≠ ['/'] ∨
      ∀ piece ∈ w.splitOnP SchemeKind.file.isSlash, isDriveLetter piece = false) :
    (readFilePath start (t ++ (s ++ w))).1 = (readFilePath start t).1 ∧
      (readFilePath start t).2 ++ s <+: (readFilePath start (t ++ (s ++ w))).2 := by
  -- in each case the path that was read stands over the stack of `f`, onto which the rest is read
  obtain ⟨f, hhost, hpath, hfold⟩ : ∃ f : FileTrail, (readFilePath start t).1 = f.host ∧
      (readFilePath start t).2 ++ s = FileTrail.below f.trail.stack ∧
      readSegments start (t ++ (s ++ w)) =
        (w.splitOnP SchemeKind.file.isSlash).foldl FileTrail.read f := by
    rcases hs with ⟨rfl, rfl | hlast⟩ | ⟨rfl, hlast⟩
    · exact ⟨⟨start, Trail.empty⟩, rfl, rfl, rfl⟩
    · obtain ⟨front, rfl⟩ := List.getLast?_eq_some_iff.mp hlast
      have hread : readSegments start (front ++ ['/']) = (readSegments start front).read [] :=
        readSegments_append_slash start front []
      refine ⟨readSegments start front, ?_, ?_, ?_⟩
      · rw [readFilePath_eq, hread, FileTrail.read_nil]
      · rw [readFilePath_eq, hread, List.append_nil, FileTrail.path_read_nil]
      · rw [List.nil_append, List.append_assoc, List.singleton_append, readSegments_append_slash]
    · exact ⟨readSegments start t, rfl, FileTrail.path_append_slash hlast,
        readSegments_append_slash start t w⟩
  have hstack : f.trail.stack = [] → (readFilePath start t).2 = ['/'] := by
    intro hnil
    have hone : FileTrail.below f.trail.stack = ['/'] := by
      rw [hnil]
      rfl
    rw [hone, readFilePath_eq, FileTrail.path, List.cons_append] at hpath
    have hrest := List.append_eq_nil_iff.mp (List.cons.inj hpath).2
    rw [readFilePath_eq, FileTrail.path, hrest.1]
  have hbelow := FileTrail.below_prefix hw hstays
    (hkeeps.imp hhost.symm.trans fun hrest => hrest.imp_left fun hne hnil => hne (hstack hnil))
  rw [hpath, hhost, readFilePath_eq, hfold]
  exact hbelow

end Url

end ContentMounts
