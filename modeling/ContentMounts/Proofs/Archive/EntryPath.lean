import ContentMounts.Archive.EntryPath
import ContentMounts.Proofs.Text.Split
import ContentMounts.Proofs.Text.Trim

/-!
# Normal forms of entry paths

The segments of a normal form are names: they are not empty, not dots, and hold no slash. A path
that is made of names, with a slash before each of them, is its own normal form, unless it ends in
blanks: these are trimmed before the path is read, so normalizing twice may lead elsewhere than
normalizing once (`normalize_slash_cons`).

That a normal form is not longer than the path is what tells the spellings apart that are not their
own normal forms (`length_normalize_le`, `length_normalize_slash_cons_le`).

The path above a path has the segments of its normal form but for the last one (`parent_eq`). What is
read from a path that is spelled by names depends on the blanks at the end of the last one
(`segments_ofNames_concat`, `filename_ofNames_concat`). A path and the one above it, its last segment
and a name that is joined to it fit together as one expects where the names are *tidy*, which is to
say that none of them ends in a blank (`IsTidy`).
-/

namespace ContentMounts

/-! ## Names -/

namespace EntryPath

/-- A segment of a normal form: neither empty nor dots, and without a slash. -/
structure IsName (segment : Text) : Prop where
  ne_nil : segment ≠ []
  ne_dot : segment ≠ ['.']
  ne_dotDot : segment ≠ ['.', '.']
  notMem : '/' ∉ segment

lemma IsName.push_eq {name : Text} (h : IsName name) (stack : List Text) :
    push stack name = name :: stack := by
  rw [push, if_neg (by simp [h.ne_nil, h.ne_dot]), if_neg h.ne_dotDot]

/-- Names are pushed one on the other. -/
lemma foldl_push_of_isName {names : List Text} (h : ∀ name ∈ names, IsName name)
    (stack : List Text) : names.foldl push stack = names.reverse ++ stack := by
  induction names generalizing stack with
  | nil => rfl
  | cons name rest ih =>
    have hrest := ih fun other hmem => h other (List.mem_cons_of_mem name hmem)
    rw [List.foldl_cons, (h name List.mem_cons_self).push_eq, hrest]
    simp

/-- Only names are pushed. -/
lemma isName_of_mem_foldl_push {pieces stack : List Text} (hpieces : ∀ p ∈ pieces, '/' ∉ p)
    (hstack : ∀ name ∈ stack, IsName name) :
    ∀ name ∈ pieces.foldl push stack, IsName name := by
  induction pieces generalizing stack with
  | nil => exact hstack
  | cons p rest ih =>
    refine ih (fun q hq => hpieces q (List.mem_cons_of_mem p hq)) ?_
    unfold push
    split
    · exact hstack
    · next hskip =>
      rw [not_or] at hskip
      split
      · exact fun name hmem => hstack name (List.mem_of_mem_tail hmem)
      · next hdots =>
        intro name hmem
        rcases List.mem_cons.mp hmem with rfl | hold
        · exact ⟨hskip.1, hskip.2, hdots, hpieces name List.mem_cons_self⟩
        · exact hstack name hold

/-- The segments of a normal form are names. -/
lemma isName_of_mem_segments {path : Text} : ∀ name ∈ segments path, IsName name := by
  intro name hmem
  have hpieces : ∀ p ∈ (Text.trim path).splitOn '/', '/' ∉ p :=
    fun p hp => notMem_of_mem_splitOn hp
  have hempty : ∀ name ∈ ([] : List Text), IsName name := by simp
  exact isName_of_mem_foldl_push hpieces hempty name (List.mem_reverse.mp hmem)

/-- The segments that remain weigh no more than the pieces that were read. -/
lemma weight_foldl_push_le (pieces stack : List Text) :
    weight (pieces.foldl push stack) ≤ weight stack + weight pieces := by
  induction pieces generalizing stack with
  | nil => simp
  | cons p rest ih =>
    have htail : weight stack.tail ≤ weight stack := by cases stack <;> simp
    have hpush : weight (push stack p) ≤ weight stack + (p.length + 1) := by
      unfold push
      split_ifs
      · omega
      · omega
      · rw [weight_cons]
        omega
    rw [List.foldl_cons, weight_cons]
    have hrest := ih (push stack p)
    omega

/-! ## Normal forms -/

/-- The path with the given segments. -/
def ofNames (names : List Text) : Text := '/' :: List.intercalate ['/'] names

/-- A path is as long as its segments weigh, or one character long. -/
lemma length_ofNames (names : List Text) : (ofNames names).length = max 1 (weight names) := by
  unfold ofNames
  cases names with
  | nil => rfl
  | cons name rest =>
    rw [← length_intercalate '/' (List.cons_ne_nil name rest), List.length_cons]
    omega

lemma length_normalize (path : Text) :
    (normalize path).length = max 1 (weight (segments path)) :=
  length_ofNames (segments path)

/-- A normal form has at most one character more than the trimmed path. -/
lemma length_normalize_le (path : Text) :
    (normalize path).length ≤ (Text.trim path).length + 1 := by
  have hweight := weight_foldl_push_le ((Text.trim path).splitOn '/') []
  rw [weight_nil, weight_splitOn] at hweight
  rw [length_normalize, segments, weight_reverse]
  omega

/-- The segments of a path behind a slash. -/
lemma segments_slash_cons (t : Text) :
    segments ('/' :: t) =
      (((Text.dropEndWhile Text.isBlank t).splitOn '/').foldl push []).reverse := by
  have hsplit : ('/' :: Text.dropEndWhile Text.isBlank t).splitOn '/' =
      [] :: (Text.dropEndWhile Text.isBlank t).splitOn '/' := by
    rw [List.splitOn_cons_eq_if_modifyHead, if_pos (beq_self_eq_true '/')]
  have hskip : push [] [] = [] := by simp [push]
  rw [segments, Text.trim_slash_cons, hsplit, List.foldl_cons, hskip]

/-- The normal form of a path behind a slash is not longer than the path without the blanks at its
end. -/
lemma length_normalize_slash_cons_le (t : Text) :
    (normalize ('/' :: t)).length ≤ (Text.dropEndWhile Text.isBlank t).length + 1 := by
  have hweight := weight_foldl_push_le ((Text.dropEndWhile Text.isBlank t).splitOn '/') []
  rw [weight_nil, weight_splitOn] at hweight
  rw [length_normalize, segments_slash_cons, weight_reverse]
  omega

/-- A path that is made of names and does not end in a blank has these as its segments. -/
lemma segments_slash_cons_intercalate {names : List Text} (h : ∀ name ∈ names, IsName name)
    (hend : Text.dropEndWhile Text.isBlank (List.intercalate ['/'] names) =
      List.intercalate ['/'] names) :
    segments ('/' :: List.intercalate ['/'] names) = names := by
  rw [segments_slash_cons, hend]
  cases names with
  | nil => simp [push]
  | cons name rest =>
    rw [List.splitOn_intercalate '/' (fun l hl => (h l hl).notMem) (List.cons_ne_nil name rest),
      foldl_push_of_isName h, List.append_nil, List.reverse_reverse]

/-- A path that is made of names and does not end in a blank is its own normal form. -/
lemma normalize_slash_cons {names : List Text} (h : ∀ name ∈ names, IsName name)
    (hend : Text.dropEndWhile Text.isBlank (List.intercalate ['/'] names) =
      List.intercalate ['/'] names) :
    normalize ('/' :: List.intercalate ['/'] names) = '/' :: List.intercalate ['/'] names := by
  rw [normalize, segments_slash_cons_intercalate h hend]

/-! ## The last segment and what is above it -/

lemma normalize_eq_ofNames (path : Text) : normalize path = ofNames (segments path) := rfl

/-- Only the root is spelled without names. -/
lemma ofNames_eq_root_iff {names : List Text} (h : ∀ name ∈ names, IsName name) :
    ofNames names = root ↔ names = [] := by
  constructor
  · intro hroot
    by_contra hne
    obtain ⟨name, rest, rfl⟩ := List.exists_cons_of_ne_nil hne
    have hname := List.length_pos_iff.mpr (h name List.mem_cons_self).ne_nil
    have hlength := congrArg List.length hroot
    rw [length_ofNames, weight_cons] at hlength
    simp only [root, List.length_singleton] at hlength
    omega
  · rintro rfl
    rfl

/-- A path is a name in the directory of the other segments. -/
lemma ofNames_concat {init : List Text} (h : ∀ name ∈ init, IsName name) (name : Text) :
    ofNames (init ++ [name]) = join (ofNames init) name := by
  by_cases hinit : init = []
  · rw [hinit, join, if_pos (by rfl)]
    simp [ofNames]
  · rw [join, if_neg fun hroot => hinit ((ofNames_eq_root_iff h).mp hroot), ofNames,
      intercalate_concat hinit]
    rfl

/-- A name in a directory is what stands behind the last slash. -/
lemma cutLast?_join {name : Text} (h : '/' ∉ name) (dir : Text) :
    Text.cutLast? '/' (join dir name) = some (if dir = root then [] else dir, name) := by
  unfold join
  split
  · exact Text.cutLast?_append_cons h []
  · exact Text.cutLast?_append_cons h dir

lemma join_ne_nil (dir name : Text) : join dir name ≠ [] := by
  unfold join
  split <;> simp

/-- A path without a slash at its end names one entry of one directory. -/
lemma join_inj {dir other name last : Text} (hname : '/' ∉ name) (hlast : '/' ∉ last)
    (hdir : dir ≠ []) (hother : other ≠ []) (h : join dir name = join other last) :
    dir = other ∧ name = last := by
  have hcut := congrArg (Text.cutLast? '/') h
  rw [cutLast?_join hname, cutLast?_join hlast, Option.some_inj, Prod.mk.injEq] at hcut
  refine ⟨?_, hcut.2⟩
  have hdirs := hcut.1
  split_ifs at hdirs with hroot hroot'
  · exact hroot.trans hroot'.symm
  · exact absurd hdirs.symm hother
  · exact absurd hdirs hdir
  · exact hdirs

/-- The path above a path loses the last segment of the normal form. -/
lemma parent_eq (path : Text) : parent path = ofNames (segments path).dropLast := by
  have hnames : ∀ name ∈ segments path, IsName name := isName_of_mem_segments
  unfold parent
  rw [normalize_eq_ofNames]
  generalize segments path = names at hnames ⊢
  rcases List.eq_nil_or_concat' names with rfl | ⟨init, name, rfl⟩
  · rfl
  · have hname : '/' ∉ name := (hnames name (by simp)).notMem
    rw [List.dropLast_concat,
      ofNames_concat fun other hmem => hnames other (List.mem_append_left _ hmem),
      cutLast?_join hname]
    by_cases hroot : ofNames init = root
    · rw [if_pos hroot, hroot]
    · rw [if_neg hroot]
      rfl

/-- Above a path that is spelled by names, and not the root, are shorter paths only. -/
lemma length_parent_lt {names : List Text} (h : ∀ name ∈ names, IsName name) (hne : names ≠ []) :
    (parent (ofNames names)).length < (ofNames names).length := by
  have hnormal : (normalize (ofNames names)).length ≤ (ofNames names).length := by
    have hbody := Text.length_dropEndWhile_le Text.isBlank (List.intercalate ['/'] names)
    have hle := length_normalize_slash_cons_le (List.intercalate ['/'] names)
    rw [ofNames, List.length_cons]
    omega
  rw [parent_eq]
  rcases List.eq_nil_or_concat' (segments (ofNames names)) with hnil | ⟨init, name, hsegments⟩
  · obtain ⟨first, rest, rfl⟩ := List.exists_cons_of_ne_nil hne
    have hfirst := List.length_pos_iff.mpr (h first List.mem_cons_self).ne_nil
    rw [hnil, length_ofNames (first :: rest), weight_cons]
    simp only [List.dropLast_nil, ofNames, List.intercalate_nil, List.length_singleton]
    omega
  · have hnames : ∀ name ∈ segments (ofNames names), IsName name := isName_of_mem_segments
    have hname := List.length_pos_iff.mpr (hnames name (by simp [hsegments])).ne_nil
    rw [normalize_eq_ofNames, hsegments, length_ofNames, weight_append, weight_cons,
      weight_nil] at hnormal
    rw [hsegments, List.dropLast_concat, length_ofNames init]
    omega

/-- The last segment of a path holds no slash. -/
lemma slash_notMem_filename (path : Text) : '/' ∉ filename path := by
  have hcut := @Text.notMem_of_cutLast? '/'
    (Text.dropEndWhile (· == '/') (Text.trim path))
  unfold filename
  dsimp only
  split
  · next heq =>
    rw [heq] at hcut
    exact hcut
  · next heq =>
    rw [heq] at hcut
    exact hcut

/-! ## Paths spelled by names

A path that is spelled by names need not have these as its segments: the blanks at its end, which are
those of the last name, are trimmed when it is read. -/

section

variable {init : List Text} {name : Text}

/-- A path ends as its last name does. -/
lemma getLast?_ofNames_concat (init : List Text) (hne : name ≠ []) :
    (ofNames (init ++ [name])).getLast? = name.getLast? := by
  have hfront : ∃ front, ofNames (init ++ [name]) = front ++ name := by
    by_cases hinit : init = []
    · exact ⟨['/'], by simp [ofNames, hinit]⟩
    · exact ⟨'/' :: List.intercalate ['/'] init ++ ['/'], by
        simp [ofNames, intercalate_concat hinit]⟩
  obtain ⟨front, hfront⟩ := hfront
  rw [hfront, List.getLast?_append, Option.or_of_isSome (by simpa using hne)]

lemma dropEndWhile_intercalate_concat (init : List Text) (name : Text) :
    Text.dropEndWhile Text.isBlank (List.intercalate ['/'] (init ++ [name])) =
      List.intercalate ['/'] (init ++ [Text.dropEndWhile Text.isBlank name]) := by
  have hslash : Text.isBlank '/' = false := by decide
  by_cases hinit : init = []
  · simp [hinit]
  · rw [intercalate_concat hinit, Text.dropEndWhile_append_cons hslash, intercalate_concat hinit]

/-- Trimming takes the blanks at the end of the last name. -/
lemma trim_ofNames_concat (init : List Text) (name : Text) :
    Text.trim (ofNames (init ++ [name])) =
      ofNames (init ++ [Text.dropEndWhile Text.isBlank name]) := by
  rw [ofNames, Text.trim_slash_cons, dropEndWhile_intercalate_concat]
  rfl

/-- The last name is read without the blanks at its end, as whatever is left of it. -/
lemma segments_ofNames_concat (hinit : ∀ other ∈ init, IsName other) (hslash : '/' ∉ name) :
    segments (ofNames (init ++ [name])) =
      (push init.reverse (Text.dropEndWhile Text.isBlank name)).reverse := by
  have hpieces : ∀ piece ∈ init ++ [Text.dropEndWhile Text.isBlank name], '/' ∉ piece := by
    intro piece hpiece
    rcases List.mem_append.mp hpiece with hname | hlast
    · exact (hinit piece hname).notMem
    · rw [List.mem_singleton.mp hlast]
      exact fun hmem => hslash (Text.mem_of_mem_dropEndWhile hmem)
  rw [ofNames, segments_slash_cons, dropEndWhile_intercalate_concat,
    List.splitOn_intercalate '/' hpieces (by simp), List.foldl_append, foldl_push_of_isName hinit,
    List.append_nil, List.foldl_cons, List.foldl_nil]

lemma dropEndWhile_slash_ofNames_concat (init : List Text) (hslash : '/' ∉ name)
    (hne : name ≠ []) :
    Text.dropEndWhile (· == '/') (ofNames (init ++ [name])) = ofNames (init ++ [name]) := by
  rw [Text.dropEndWhile_eq_self_iff, getLast?_ofNames_concat init hne, Option.any_eq_false]
  intro c hc
  rw [beq_eq_false_iff_ne]
  rintro rfl
  exact hslash (List.mem_of_getLast? hc)

/-- The last segment of a path is what is left of its last name, or, if nothing is left of it, the
name before it. -/
lemma filename_ofNames_concat (hinit : ∀ other ∈ init, IsName other) (hslash : '/' ∉ name) :
    filename (ofNames (init ++ [name])) =
      if Text.dropEndWhile Text.isBlank name = [] then init.getLast?.getD []
      else Text.dropEndWhile Text.isBlank name := by
  -- what is behind the last slash, once there is no slash at the end
  have hread : ∀ {front : List Text} {last : Text}, (∀ other ∈ front, IsName other) →
      '/' ∉ last → last ≠ [] →
      Text.cutLast? '/' (Text.dropEndWhile (· == '/') (ofNames (front ++ [last]))) =
        some (if ofNames front = root then [] else ofNames front, last) := by
    intro front last hfront hlast hne
    rw [dropEndWhile_slash_ofNames_concat front hlast hne, ofNames_concat hfront,
      cutLast?_join hlast]
  unfold filename
  dsimp only
  rw [trim_ofNames_concat]
  split_ifs with hnil
  · rw [hnil]
    rcases List.eq_nil_or_concat' init with rfl | ⟨front, last, rfl⟩
    · rfl
    · have hlast := hinit last (by simp)
      have hbehind : ofNames (front ++ [last] ++ [[]]) = ofNames (front ++ [last]) ++ ['/'] := by
        rw [ofNames, intercalate_concat (by simp)]
        rfl
      rw [hbehind, Text.dropEndWhile_concat (by simp),
        hread (fun other hmem => hinit other (List.mem_append_left _ hmem)) hlast.notMem
          hlast.ne_nil, List.getLast?_concat, Option.getD_some]
  · rw [hread hinit (fun hmem => hslash (Text.mem_of_mem_dropEndWhile hmem)) hnil]

end

/-! ## Tidy names

A name that ends in a blank stands in the normal form of a path as long as another name follows it.
The path above is read anew, and trimmed. For names without a blank at their end nothing is
trimmed, and the path above a path, its last segment and its normal form are what they seem to be. -/

/-- A name without a blank at its end. -/
structure IsTidy (segment : Text) : Prop extends IsName segment where
  not_blank : ∀ c, segment.getLast? = some c → Text.isBlank c = false

lemma IsTidy.dropEndWhile_eq {name : Text} (h : IsTidy name) :
    Text.dropEndWhile Text.isBlank name = name := by
  rw [Text.dropEndWhile_eq_self_iff, Option.any_eq_false]
  exact h.not_blank

section

variable {names init : List Text} {name : Text}

/-- Names are the segments of the path that they spell if the last one is tidy. -/
lemma segments_concat_of_isTidy (hinit : ∀ other ∈ init, IsName other) (hname : IsTidy name) :
    segments (ofNames (init ++ [name])) = init ++ [name] := by
  rw [segments_ofNames_concat hinit hname.notMem, hname.dropEndWhile_eq, hname.push_eq,
    List.reverse_cons, List.reverse_reverse]

lemma parent_concat_of_isTidy (hinit : ∀ other ∈ init, IsName other) (hname : IsTidy name) :
    parent (ofNames (init ++ [name])) = ofNames init := by
  rw [parent_eq, segments_concat_of_isTidy hinit hname, List.dropLast_concat]

lemma filename_concat_of_isTidy (hinit : ∀ other ∈ init, IsName other) (hname : IsTidy name) :
    filename (ofNames (init ++ [name])) = name := by
  rw [filename_ofNames_concat hinit hname.notMem, hname.dropEndWhile_eq, if_neg hname.ne_nil]

lemma isName_of_concat (h : ∀ other ∈ init ++ [name], IsTidy other) :
    ∀ other ∈ init, IsName other :=
  fun other hmem => (h other (List.mem_append_left _ hmem)).toIsName

/-- Tidy names are the segments of the path that they spell. -/
lemma segments_ofNames (h : ∀ name ∈ names, IsTidy name) : segments (ofNames names) = names := by
  rcases List.eq_nil_or_concat' names with rfl | ⟨init, name, rfl⟩
  · rfl
  · exact segments_concat_of_isTidy (isName_of_concat h) (h name (by simp))

lemma normalize_ofNames (h : ∀ name ∈ names, IsTidy name) :
    normalize (ofNames names) = ofNames names := by
  rw [normalize_eq_ofNames, segments_ofNames h]

lemma parent_concat (h : ∀ other ∈ init ++ [name], IsTidy other) :
    parent (ofNames (init ++ [name])) = ofNames init :=
  parent_concat_of_isTidy (isName_of_concat h) (h name (by simp))

lemma filename_concat (h : ∀ other ∈ init ++ [name], IsTidy other) :
    filename (ofNames (init ++ [name])) = name :=
  filename_concat_of_isTidy (isName_of_concat h) (h name (by simp))

/-- A tidy name in a directory whose spelling does not end in a blank is a segment more. -/
lemma normalize_join {dir : Text} (hdir : Text.dropEndWhile Text.isBlank dir = dir)
    (hname : IsTidy name) : normalize (join dir name) = ofNames (segments dir ++ [name]) := by
  have hslash : Text.isBlank '/' = false := by decide
  rw [normalize_eq_ofNames, join]
  split
  · next hroot =>
    have hsingle : ofNames [name] = '/' :: name := by simp [ofNames]
    have hnames : segments (ofNames [name]) = [name] := segments_ofNames (by simpa using hname)
    rw [hroot, ← hsingle, hnames]
    rfl
  · have hlong : Text.trim (dir ++ '/' :: name) = dir.dropWhile Text.isBlank ++ '/' :: name := by
      have hdrop : (dir ++ '/' :: name).dropWhile Text.isBlank =
          dir.dropWhile Text.isBlank ++ '/' :: name := by
        rw [List.dropWhile_append]
        split
        · next hnil => rw [List.isEmpty_iff.mp hnil, List.dropWhile_cons_of_neg (by simp [hslash])]
                       rfl
        · rfl
      rw [Text.trim, Text.trimWhile, hdrop, Text.dropEndWhile_append_cons hslash,
        hname.dropEndWhile_eq]
    have hshort : Text.trim dir = dir.dropWhile Text.isBlank := Text.trim_of_dropEndWhile hdir
    have hsplit : (dir.dropWhile Text.isBlank ++ '/' :: name).splitOn '/' =
        (dir.dropWhile Text.isBlank).splitOn '/' ++ [name] := by
      rw [List.splitOn, List.splitOnP_append_cons _ _ (by simp), ← List.splitOn,
        List.splitOnP_eq_singleton]
      intro c hc
      rw [beq_eq_false_iff_ne]
      rintro rfl
      exact hname.notMem hc
    rw [segments, segments, hlong, hshort, hsplit, List.foldl_append, List.foldl_cons,
      List.foldl_nil, hname.push_eq, List.reverse_cons]

end

end EntryPath

end ContentMounts
