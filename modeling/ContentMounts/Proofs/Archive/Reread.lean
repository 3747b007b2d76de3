import ContentMounts.Proofs.Archive.EntryPath

/-!
# Normal forms that are read again

The index records an entry under the normal form of its name, and then takes that normal form apart:
the path above it is a directory, its last segment a name in there. Each of these helpers trims the
path it is given once more, and where the normal form ends in a blank, they do not fit together
(`not_fitsTogether_of_blank`). Blanks inside of a path stay until the path that is above them is read
by itself.

The segments of the normal form are names, so it is enough to know what is read from a path that is
spelled by names (`segments_ofNames_concat`, `filename_ofNames_concat`): its last name loses the
blanks at its end, and may then be empty or dots. Each of the laws holds of the normal form of a path
exactly if the text that it trims has nothing to be trimmed (`normalForm_fits_iff`).
-/

namespace ContentMounts

namespace Text

/-- Whether the last character of a text is blank. -/
def endsInBlank (t : Text) : Bool := t.getLast?.any isBlank

lemma endsInBlank_eq_false_iff {t : Text} : t.endsInBlank = false ↔ dropEndWhile isBlank t = t :=
  dropEndWhile_eq_self_iff.symm

lemma endsInBlank_iff {t : Text} :
    t.endsInBlank = true ↔ ∃ before c, t = before ++ [c] ∧ isBlank c = true := by
  rw [endsInBlank, Option.any_eq_true]
  constructor
  · rintro ⟨c, hlast, hc⟩
    obtain ⟨before, rfl⟩ := List.getLast?_eq_some_iff.mp hlast
    exact ⟨before, c, rfl, hc⟩
  · rintro ⟨before, c, rfl, hc⟩
    exact ⟨c, List.getLast?_concat, hc⟩

lemma endsInBlank_slash_cons (t : Text) : endsInBlank ('/' :: t) = t.endsInBlank := by
  rcases List.eq_nil_or_concat' t with rfl | ⟨before, c, rfl⟩
  · decide
  · rw [← List.cons_append, endsInBlank, endsInBlank, List.getLast?_concat, List.getLast?_concat]

end Text

namespace EntryPath

section

variable {names init : List Text} {name : Text}

lemma endsInBlank_ofNames_concat (init : List Text) (hne : name ≠ []) :
    (ofNames (init ++ [name])).endsInBlank = name.endsInBlank := by
  rw [Text.endsInBlank, getLast?_ofNames_concat init hne, Text.endsInBlank]

/-- A path ends in a blank if its last name does. -/
lemma endsInBlank_ofNames_iff (h : ∀ name ∈ names, IsName name) :
    (ofNames names).endsInBlank = false ↔
      ∀ name ∈ names.reverse.take 1, name.endsInBlank = false := by
  rcases List.eq_nil_or_concat' names with rfl | ⟨init, name, rfl⟩
  · exact iff_of_true (by decide) (by simp)
  · rw [endsInBlank_ofNames_concat init (h name (by simp)).ne_nil]
    simp

lemma IsName.isTidy (h : IsName name) (hblank : name.endsInBlank = false) : IsTidy name :=
  { h with not_blank := (Option.any_eq_false _ _).mp hblank }

/-- Without its last name a path is spelled differently. -/
lemma eq_nil_of_ofNames_dropLast (h : ∀ name ∈ names, IsName name)
    (heq : ofNames names.dropLast = ofNames names) : names = [] := by
  rcases List.eq_nil_or_concat' names with rfl | ⟨init, name, rfl⟩
  · rfl
  · have hname := List.length_pos_iff.mpr (h name (by simp)).ne_nil
    have hlength := congrArg List.length heq
    rw [List.dropLast_concat, length_ofNames, length_ofNames, weight_append, weight_cons,
      weight_nil] at hlength
    omega

/-- Only the root is spelled without a name, whatever is left of the last one. -/
lemma ofNames_concat_eq_root_iff (hinit : ∀ other ∈ init, IsName other) {left : Text} :
    ofNames (init ++ [left]) = root ↔ init = [] ∧ left = [] := by
  constructor
  · intro hroot
    have hlength := congrArg List.length hroot
    rw [length_ofNames, weight_append, weight_cons, weight_nil, root, List.length_singleton]
      at hlength
    refine ⟨?_, List.length_eq_zero_iff.mp (by omega)⟩
    cases init with
    | nil => rfl
    | cons first rest =>
      rw [weight_cons] at hlength
      have hfirst := List.length_pos_iff.mpr (hinit first List.mem_cons_self).ne_nil
      omega
  · rintro ⟨rfl, rfl⟩
    rfl

/-! ## The four laws

Each of them for a path that is spelled by names. -/

/-- A path that ends in a blank is longer than its normal form. -/
lemma normalize_ofNames_iff (h : ∀ name ∈ names, IsName name) :
    normalize (ofNames names) = ofNames names ↔ (ofNames names).endsInBlank = false := by
  rw [ofNames, Text.endsInBlank_slash_cons, Text.endsInBlank_eq_false_iff]
  refine ⟨fun hnormal => ?_, normalize_slash_cons h⟩
  have hlength := length_normalize_slash_cons_le (List.intercalate ['/'] names)
  rw [hnormal, List.length_cons] at hlength
  exact (Text.dropEndWhile_prefix_self _ _).eq_of_length_le (by omega)

/-- The path above a path and its last segment spell the path, unless it ends in a blank. -/
lemma join_parent_filename_iff (h : ∀ name ∈ names, IsName name) :
    join (parent (ofNames names)) (filename (ofNames names)) = ofNames names ↔
      (ofNames names).endsInBlank = false := by
  rcases List.eq_nil_or_concat' names with rfl | ⟨init, name, rfl⟩
  · exact iff_of_true (by decide) (by decide)
  have hinit : ∀ other ∈ init, IsName other := fun other hmem => h other (by simp [hmem])
  have hname := h name (by simp)
  rw [endsInBlank_ofNames_concat init hname.ne_nil]
  constructor
  · intro hjoin
    have habove : parent (ofNames (init ++ [name])) ≠ [] := by
      rw [parent_eq]
      exact List.cons_ne_nil _ _
    obtain ⟨hparent, hfile⟩ : parent (ofNames (init ++ [name])) = ofNames init ∧
        filename (ofNames (init ++ [name])) = name :=
      join_inj (slash_notMem_filename _) hname.notMem habove (List.cons_ne_nil _ _)
        (hjoin.trans (ofNames_concat hinit name))
    rw [filename_ofNames_concat hinit hname.notMem] at hfile
    rw [Text.endsInBlank_eq_false_iff]
    split_ifs at hfile with hleft
    · -- nothing is left of the last name, so the path above has lost the name before it as well
      rw [parent_eq, segments_ofNames_concat hinit hname.notMem, hleft, push, if_pos (.inl rfl),
        List.reverse_reverse] at hparent
      rw [eq_nil_of_ofNames_dropLast hinit hparent] at hfile
      exact absurd hfile.symm hname.ne_nil
    · exact hfile
  · intro hblank
    have htidy := hname.isTidy hblank
    rw [parent_concat_of_isTidy hinit htidy, filename_concat_of_isTidy hinit htidy,
      ← ofNames_concat hinit]

/-- The last segment is empty if nothing is left of the path but the root. -/
lemma filename_eq_nil_iff (h : ∀ name ∈ names, IsName name) :
    filename (ofNames names) = [] ↔ Text.trim (ofNames names) = root := by
  rcases List.eq_nil_or_concat' names with rfl | ⟨init, name, rfl⟩
  · exact iff_of_true (by decide) (by decide)
  have hinit : ∀ other ∈ init, IsName other := fun other hmem => h other (by simp [hmem])
  rw [filename_ofNames_concat hinit (h name (by simp)).notMem, trim_ofNames_concat,
    ofNames_concat_eq_root_iff hinit]
  split_ifs with hleft
  · rw [and_iff_left hleft]
    rcases List.eq_nil_or_concat' init with rfl | ⟨front, last, rfl⟩
    · exact iff_of_true rfl rfl
    · rw [List.getLast?_concat, Option.getD_some]
      exact iff_of_false (hinit last (by simp)).ne_nil (by simp)
  · exact iff_of_false hleft fun hboth => hleft hboth.2

end

/-- A normal form is its own normal form, unless it ends in a blank. -/
lemma normalize_normalize_iff (path : Text) :
    normalize (normalize path) = normalize path ↔ (normalize path).endsInBlank = false :=
  normalize_ofNames_iff isName_of_mem_segments

/-- The path above a path is its own normal form, unless it ends in a blank. -/
lemma normalize_parent_iff (path : Text) :
    normalize (parent path) = parent path ↔ (parent path).endsInBlank = false := by
  rw [parent_eq]
  exact normalize_ofNames_iff fun name hmem =>
    isName_of_mem_segments name ((List.dropLast_sublist _).subset hmem)

/-! ## Fitting together -/

/-- What is expected of a path in normal form: it is its own normal form, and if it is not the root,
the path above it is one too and spells it with a last segment that is not empty. -/
structure FitsTogether (path : Text) : Prop where
  normalize_eq : normalize path = path
  join_eq : path ≠ root → join (parent path) (filename path) = path
  filename_ne_nil : path ≠ root → filename path ≠ []
  normalize_parent : path ≠ root → normalize (parent path) = parent path

/-- A normal form fits together if neither of its last two segments ends in a blank. -/
lemma fitsTogether_iff (path : Text) :
    FitsTogether (normalize path) ↔
      ∀ name ∈ (segments path).reverse.take 2, name.endsInBlank = false := by
  have hnames : ∀ name ∈ segments path, IsName name := isName_of_mem_segments
  rw [normalize_eq_ofNames]
  generalize segments path = names at hnames ⊢
  rcases List.eq_nil_or_concat' names with rfl | ⟨init, name, rfl⟩
  · refine iff_of_true ⟨by decide, ?_, ?_, ?_⟩ (by simp)
    all_goals exact fun hne => absurd rfl hne
  have hinit : ∀ other ∈ init, IsName other := fun other hmem => hnames other (by simp [hmem])
  have hname := hnames name (by simp)
  have hroot : ofNames (init ++ [name]) ≠ root := fun hroot => by
    simpa using (ofNames_eq_root_iff hnames).mp hroot
  have hlast : (ofNames (init ++ [name])).endsInBlank = name.endsInBlank :=
    endsInBlank_ofNames_concat init hname.ne_nil
  rw [List.reverse_append, List.reverse_singleton, List.singleton_append, List.take_succ_cons,
    List.forall_mem_cons, ← endsInBlank_ofNames_iff hinit]
  constructor
  · intro hfits
    have hblank : name.endsInBlank = false :=
      hlast.symm.trans ((normalize_ofNames_iff hnames).mp hfits.normalize_eq)
    have habove := (normalize_parent_iff _).mp (hfits.normalize_parent hroot)
    rw [parent_concat_of_isTidy hinit (hname.isTidy hblank)] at habove
    exact ⟨hblank, habove⟩
  · rintro ⟨hblank, habove⟩
    have htidy := hname.isTidy hblank
    have hkept : (ofNames (init ++ [name])).endsInBlank = false := hlast.trans hblank
    refine ⟨(normalize_ofNames_iff hnames).mpr hkept,
      fun _ => (join_parent_filename_iff hnames).mpr hkept, fun _ => ?_, fun _ => ?_⟩
    · rw [filename_concat_of_isTidy hinit htidy]
      exact hname.ne_nil
    · rw [normalize_parent_iff, parent_concat_of_isTidy hinit htidy]
      exact habove

/-- The helpers for entry paths fit together on the normal form of a path exactly if neither of its
last two segments ends in a blank. Taken one by one, the normal form is its own normal form, and is
spelled by the path above it and its last segment, exactly if it does not end in a blank; its last
segment is empty exactly if it is the root or the root with blanks behind it; and the path above it
is its own normal form exactly if that one does not end in a blank. -/
theorem normalForm_fits_iff (path : Text) :
    (FitsTogether (normalize path) ↔
        ∀ name ∈ (segments path).reverse.take 2, name.endsInBlank = false) ∧
      (normalize (normalize path) = normalize path ↔ (normalize path).endsInBlank = false) ∧
      (join (parent (normalize path)) (filename (normalize path)) = normalize path ↔
        (normalize path).endsInBlank = false) ∧
      (filename (normalize path) = [] ↔ Text.trim (normalize path) = root) ∧
      (normalize (parent (normalize path)) = parent (normalize path) ↔
        (parent (normalize path)).endsInBlank = false) := by
  have hnames : ∀ name ∈ segments path, IsName name := isName_of_mem_segments
  exact ⟨fitsTogether_iff path, normalize_normalize_iff path, join_parent_filename_iff hnames,
    filename_eq_nil_iff hnames, normalize_parent_iff (normalize path)⟩

/-- A path with blanks and dots in it, none of them at the end of its last two segments. -/
def guidePath : Text := "  old /./docs/x/../guide//page one \n".toList

/-- That path fits together, though a segment further up ends in a blank. -/
theorem fitsTogether_guidePath :
    segments guidePath = ["old ".toList, "docs".toList, "guide".toList, "page one".toList] ∧
      normalize guidePath ≠ root ∧ FitsTogether (normalize guidePath) := by
  refine ⟨by decide, by decide, (normalForm_fits_iff guidePath).1.mpr ?_⟩
  decide

/-- The normal form of `a /.` ends in a blank, which its own normal form does not, and the path above
it and its last segment do not spell it. Nor does the last segment of the root with a blank behind it
hold anything, and the path above `/a /b` is not in normal form. -/
theorem not_fitsTogether_of_blank :
    normalize "a /.".toList = "/a ".toList ∧ normalize "/a ".toList = "/a".toList ∧
      join (parent "/a ".toList) (filename "/a ".toList) = "/a".toList ∧
      ¬FitsTogether (normalize "a /.".toList) ∧
      normalize "./ /.".toList = "/ ".toList ∧ filename "/ ".toList = [] ∧
      normalize "a /b".toList = "/a /b".toList ∧ parent "/a /b".toList = "/a ".toList ∧
      normalize (parent "/a /b".toList) = "/a".toList := by
  refine ⟨by decide, by decide, by decide, fun hfits => ?_, by decide, by decide, by decide,
    by decide, by decide⟩
  exact absurd hfits.normalize_eq (by decide)

end EntryPath

end ContentMounts
