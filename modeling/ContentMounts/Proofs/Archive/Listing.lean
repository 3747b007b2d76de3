import ContentMounts.Proofs.Archive.Tree
import ContentMounts.Proofs.Text.Order

/-!
# Listings and look-ups

A listing names what is in a directory, in strictly ascending order, and each name leads to an
entry: a directory exactly if a slash stands behind it. Every entry that was inserted is listed in
the directory above it (`listing_agrees`).

Both hold of names without a blank at the end of a segment only. Paths are trimmed whenever they are
read, so the directory `/a ` is listed as what is in `/a`, and recorded in the root under a name that
leads nowhere (`listing_disagrees_of_blank`). That a listing is in ascending order holds of any names.
-/

namespace ContentMounts

/-- No segment of the path of an entry ends in a blank. -/
def Insertion.Tidy (e : Insertion) : Prop :=
  ∀ segment ∈ EntryPath.segments e.name, segment.getLast?.any Text.isBlank = false

instance (e : Insertion) : Decidable e.Tidy :=
  inferInstanceAs (Decidable (∀ segment ∈ EntryPath.segments e.name, _))

lemma Insertion.Tidy.isTidy {e : Insertion} (h : e.Tidy) :
    ∀ segment ∈ EntryPath.segments e.name, EntryPath.IsTidy segment := fun segment hmem =>
  { EntryPath.isName_of_mem_segments segment hmem with
    not_blank := fun c hc => by simpa [hc] using h segment hmem }

namespace EntryIndex

/-- The name that a listing shows, without the slash behind the name of a directory. -/
def stem (x : Text) : Text := if x.getLast? = some '/' then x.dropLast else x

/-- The name of a directory or of a file as a listing shows it. -/
def shown (name : Text) (isDir : Bool) : Text := if isDir then name ++ ['/'] else name

variable {ix : EntryIndex} {es : List Insertion} {dir name : Text} {isDir : Bool}

lemma stem_shown (h : '/' ∉ name) : stem (shown name isDir) = name := by
  unfold stem shown
  cases isDir with
  | true => simp
  | false =>
    have hlast : name.getLast? ≠ some '/' := fun hlast => h (List.mem_of_getLast? hlast)
    simp [hlast]

lemma getLast?_shown (h : '/' ∉ name) : (shown name isDir).getLast? = some '/' ↔ isDir = true := by
  unfold shown
  cases isDir with
  | true => simp
  | false => simpa using fun hlast => h (List.mem_of_getLast? hlast)

/-- What a listing shows are the names recorded in the directory. -/
lemma mem_list {x : Text} : x ∈ ix.list dir ↔
    ∃ name ∈ ix.names (EntryPath.normalize dir),
      shown name ((ix.info? (EntryPath.join (EntryPath.normalize dir) name)).any (·.isDir)) = x := by
  unfold list Text.sort
  rw [List.mem_mergeSort, List.mem_map]
  rfl

/-- A recorded name is the last segment of a path, so no slash stands in it. -/
lemma Hangs.slash_notMem (h : Hangs ix EntryPath.root) (hname : name ∈ ix.names dir) :
    '/' ∉ name := by
  obtain ⟨path, -, -, -, rfl⟩ := h.listed dir name hname
  exact EntryPath.slash_notMem_filename path

/-- A listing is in strictly ascending order. -/
lemma Hangs.pairwise_list (h : Hangs ix EntryPath.root) (dir : Text) :
    (ix.list dir).Pairwise Text.Before := by
  refine Text.pairwise_before_mergeSort id ?_
  rw [List.map_id]
  refine List.Nodup.map_on (fun name hname other hother heq => ?_) (h.nodup _)
  have hstem := congrArg stem heq
  exact (stem_shown (h.slash_notMem hname)).symm.trans
    (hstem.trans (stem_shown (h.slash_notMem hother)))

/-! ## Tidy names -/

/-- Where all names are tidy, every path that is known is spelled by tidy names. -/
lemma exists_tidy_of_isSome_info? (hes : ∀ e ∈ es, e.Tidy) {path : Text}
    (h : ((ofInsertions es).info? path).isSome = true) :
    ∃ names, (∀ name ∈ names, EntryPath.IsTidy name) ∧ path = EntryPath.ofNames names := by
  refine forall_of_isSome_info? (P := fun path => ∃ names,
    (∀ name ∈ names, EntryPath.IsTidy name) ∧ path = EntryPath.ofNames names) ?_ ?_ ?_ path h
  · exact ⟨[], by simp, rfl⟩
  · rintro _ ⟨names, hnames, rfl⟩
    refine ⟨names.dropLast, fun name hmem => hnames name ((List.dropLast_sublist _).subset hmem), ?_⟩
    rw [EntryPath.parent_eq, EntryPath.segments_ofNames hnames]
  · exact fun e he => ⟨_, (hes e he).isTidy, EntryPath.normalize_eq_ofNames e.name⟩

/-- Where all names are tidy, a name that is recorded in a directory leads to a path that is known in
its normal form. -/
lemma isSome_info?_join (hes : ∀ e ∈ es, e.Tidy) (hname : name ∈ (ofInsertions es).names dir) :
    EntryPath.IsTidy name ∧
      EntryPath.normalize (EntryPath.join dir name) = EntryPath.join dir name ∧
      ((ofInsertions es).info? (EntryPath.join dir name)).isSome = true := by
  obtain ⟨path, hne, hknown, rfl, rfl⟩ := (hangs_ofInsertions es).listed dir name hname
  obtain ⟨names, hnames, rfl⟩ := exists_tidy_of_isSome_info? hes hknown
  rcases List.eq_nil_or_concat' names with rfl | ⟨init, last, rfl⟩
  · exact absurd rfl hne
  · rw [EntryPath.parent_concat hnames, EntryPath.filename_concat hnames,
      ← EntryPath.ofNames_concat (EntryPath.isName_of_concat hnames)]
    exact ⟨hnames last (by simp), EntryPath.normalize_ofNames hnames, hknown⟩

/-- Where all names are tidy, what a listing shows is known, as a directory or as a file. -/
lemma exists_info?_of_mem_list (hes : ∀ e ∈ es, e.Tidy) {x : Text}
    (hx : x ∈ (ofInsertions es).list dir) :
    EntryPath.IsTidy (stem x) ∧
      EntryPath.normalize (EntryPath.join (EntryPath.normalize dir) (stem x)) =
        EntryPath.join (EntryPath.normalize dir) (stem x) ∧
      ∃ info, (ofInsertions es).info? (EntryPath.join (EntryPath.normalize dir) (stem x)) =
        some info ∧ (info.isDir = true ↔ x.getLast? = some '/') := by
  obtain ⟨name, hname, rfl⟩ := mem_list.mp hx
  have hslash := (hangs_ofInsertions es).slash_notMem hname
  obtain ⟨htidy, hnormal, hknown⟩ := isSome_info?_join hes hname
  obtain ⟨info, hinfo⟩ := Option.isSome_iff_exists.mp hknown
  rw [stem_shown hslash, getLast?_shown hslash, hinfo]
  exact ⟨htidy, hnormal, info, rfl, Iff.rfl⟩

/-- An entry with a tidy name is listed in the directory above it. -/
lemma exists_mem_list_parent {e : Insertion} (he : e ∈ es) (hne : e.path ≠ EntryPath.root)
    (htidy : e.Tidy) :
    ∃ init last, EntryPath.segments e.name = init ++ [last] ∧
      EntryPath.parent e.path = EntryPath.ofNames init ∧
      ∃ isDir, shown last isDir ∈ (ofInsertions es).list (EntryPath.parent e.path) := by
  have hnames := htidy.isTidy
  have hpath : e.path = EntryPath.ofNames (EntryPath.segments e.name) := rfl
  obtain ⟨-, hlisted⟩ := (hangs_ofInsertions es).hung e.path (isSome_info?_of_mem he) hne hne
  rcases List.eq_nil_or_concat' (EntryPath.segments e.name) with hnil | ⟨init, last, hconcat⟩
  · rw [hnil] at hpath
    exact absurd hpath hne
  · rw [hconcat] at hnames hpath
    have habove : EntryPath.parent e.path = EntryPath.ofNames init := by
      rw [hpath, EntryPath.parent_concat hnames]
    have hnormal : EntryPath.normalize (EntryPath.parent e.path) = EntryPath.parent e.path := by
      rw [habove]
      exact EntryPath.normalize_ofNames fun other hmem => hnames other (List.mem_append_left _ hmem)
    have hfile : EntryPath.filename e.path = last := by
      rw [hpath, EntryPath.filename_concat hnames]
    rw [hfile, ← hnormal] at hlisted
    exact ⟨init, last, hconcat, habove, _, mem_list.mpr ⟨last, hlisted, rfl⟩⟩

/-! ## The law -/

/-- Listings and look-ups agree. A listing is in strictly ascending order, an entry is listed in the
directory above it, and what is listed is found, as a directory exactly if a slash stands behind its
name. The last two hold of names without a blank at the end of a segment, and a directory that is
spelled with a blank at its end is joined in its normal form. -/
theorem listing_agrees (es : List Insertion) :
    (∀ dir, ((ofInsertions es).list dir).Pairwise Text.Before) ∧
    (∀ e ∈ es, e.path ≠ EntryPath.root → e.Tidy → ∃ init last,
      EntryPath.segments e.name = init ++ [last] ∧
      EntryPath.parent e.path = EntryPath.ofNames init ∧
      (last ∈ (ofInsertions es).list (EntryPath.parent e.path) ∨
        last ++ ['/'] ∈ (ofInsertions es).list (EntryPath.parent e.path))) ∧
    ((∀ e ∈ es, e.Tidy) → ∀ dir, ∀ x ∈ (ofInsertions es).list dir, ∃ info,
      (ofInsertions es).get? (EntryPath.join (EntryPath.normalize dir) (stem x)) = some info ∧
      (info.isDir = true ↔ x.getLast? = some '/') ∧
      (dir.getLast?.any Text.isBlank = false →
        (ofInsertions es).get? (EntryPath.join dir (stem x)) = some info)) := by
  refine ⟨(hangs_ofInsertions es).pairwise_list, fun e he hne htidy => ?_, fun hes dir x hx => ?_⟩
  · obtain ⟨init, last, hsegments, habove, isDir, hmem⟩ := exists_mem_list_parent he hne htidy
    refine ⟨init, last, hsegments, habove, ?_⟩
    cases isDir with
    | true => exact .inr hmem
    | false => exact .inl hmem
  · obtain ⟨htidy, hnormal, info, hinfo, hdir⟩ := exists_info?_of_mem_list hes hx
    refine ⟨info, ?_, hdir, fun hblank => ?_⟩
    · rw [get?, hnormal, hinfo]
    · -- both spellings of the directory have the same segments, and the name adds one
      rw [get?, EntryPath.normalize_join (Text.dropEndWhile_of_getLast? hblank) htidy,
        EntryPath.ofNames_concat EntryPath.isName_of_mem_segments,
        ← EntryPath.normalize_eq_ofNames, hinfo]

/-- An archive that leaves out a directory and names another one after what is in it. -/
def sampleInsertions : List Insertion :=
  [⟨"docs/guide/page".toList, 0, false, 3⟩, ⟨"docs/".toList, 1, true, 0⟩,
    ⟨"./notes".toList, 2, false, 5⟩]

/-- The page is listed in the directory that was made up for it, and the listed directory of the
documents is found. -/
theorem listing_agrees_of_sample :
    (∀ e ∈ sampleInsertions, e.path ≠ EntryPath.root ∧ e.Tidy) ∧
    ("page".toList ∈ (ofInsertions sampleInsertions).list "/docs/guide".toList ∨
      "page/".toList ∈ (ofInsertions sampleInsertions).list "/docs/guide".toList) ∧
    "docs/".toList ∈ (ofInsertions sampleInsertions).list EntryPath.root ∧
    ∃ info, (ofInsertions sampleInsertions).get? "/docs".toList = some info ∧
      info.isDir = true := by
  have hes : ∀ e ∈ sampleInsertions, e.path ≠ EntryPath.root ∧ e.Tidy := by decide
  have hdocs : "docs/".toList ∈ (ofInsertions sampleInsertions).list EntryPath.root :=
    mem_list.mpr ⟨"docs".toList, by decide, by decide⟩
  obtain ⟨-, hlisted, hfound⟩ := listing_agrees sampleInsertions
  refine ⟨hes, ?_, hdocs, ?_⟩
  · have hpage : (⟨"docs/guide/page".toList, 0, false, 3⟩ : Insertion) ∈ sampleInsertions := by
      decide
    obtain ⟨init, last, hsegments, -, hmem⟩ := hlisted _ hpage (hes _ hpage).1 (hes _ hpage).2
    obtain ⟨-, hlast⟩ := List.append_inj' (hsegments.symm.trans
      (show _ = ["docs".toList, "guide".toList] ++ ["page".toList] by decide)) rfl
    obtain rfl : last = "page".toList := List.singleton_inj.mp hlast
    exact hmem
  · obtain ⟨info, hget, hdir, -⟩ := hfound (fun e he => (hes e he).2) _ _ hdocs
    exact ⟨info, hget, hdir.mpr (by decide)⟩

/-- A directory whose name ends in a blank is listed in the root under the trimmed name, which is
not found, and its own listing does not hold its entry. -/
theorem listing_disagrees_of_blank :
    let e : Insertion := ⟨"a /b".toList, 0, false, 1⟩
    EntryPath.segments e.name = ["a ".toList, "b".toList] ∧
    EntryPath.parent e.path = "/a ".toList ∧
    (ofInsertions [e]).list "/a ".toList = [] ∧
    (ofInsertions [e]).list EntryPath.root = ["a".toList] ∧
    (ofInsertions [e]).get? (EntryPath.join EntryPath.root "a".toList) = none := by
  intro e
  have hnames : (ofInsertions [e]).names (EntryPath.normalize "/a ".toList) = [] := by decide
  have hroot : (ofInsertions [e]).names (EntryPath.normalize EntryPath.root) = ["a".toList] := by
    decide
  refine ⟨by decide, by decide, ?_, ?_, by decide⟩
  · simp only [list, hnames, List.map_nil, Text.sort, List.mergeSort_nil]
  · simp only [list, hroot, List.map_singleton, Text.sort, List.mergeSort_singleton]
    decide

end EntryIndex

end ContentMounts
