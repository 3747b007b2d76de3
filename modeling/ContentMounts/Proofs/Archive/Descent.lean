import ContentMounts.Proofs.Archive.Listing
import ContentMounts.Proofs.Provider.Archives

/-!
# The way down from the root

Whoever browses an archive starts at its root and follows the names that the listings show. What is
above a path in the index is in the index too, so nothing is missing on the way. But a listing is
refused at a file, and an archive may name a file and then entries below it: the first entry of a
name stays, and no directory takes the place of a file. An entry is found on the way down exactly if
no file stands above it (`descent_exact`).

Here, too, names with a blank at the end of a segment are left out: paths are trimmed whenever they
are read, so the paths above such a name are recorded in other places than where they are looked up.
-/

namespace ContentMounts

namespace ArchiveFs

/-- A path is reached from the root of an archive through the listings of directories. -/
inductive Walked (fs : ArchiveFs) : Text → Prop
  | root : Walked fs EntryPath.root
  | step {r : ArchiveResource} {names : List Text} {x : Text} : Walked fs r.path →
      fs.list r = .ok names → x ∈ names →
      Walked fs (EntryPath.join r.path (EntryIndex.stem x))

variable {fs : ArchiveFs}

lemma Walked.ne_nil {path : Text} (h : fs.Walked path) : path ≠ [] := by
  cases h with
  | root => exact List.cons_ne_nil _ _
  | step _ _ _ => exact EntryPath.join_ne_nil _ _

/-- A filesystem that is open lists directories and refuses files. -/
lemma list_eq_ok_iff (hopen : fs.isOpen = true) {r : ArchiveResource} {names : List Text} :
    fs.list r = .ok names ↔ ∃ info, fs.archive.index.get? r.path = some info ∧
      info.isDir = true ∧ names = fs.archive.index.list r.path := by
  unfold list entry ensureOpen
  rw [if_pos hopen]
  cases fs.archive.index.get? r.path with
  | none => simp [bind, Except.bind]
  | some info =>
    cases hdir : info.isDir with
    | true =>
      simp only [bind, Except.bind, pure, Except.pure, hdir, Option.some_inj, exists_eq_left']
      simp [eq_comm]
    | false => simp [bind, Except.bind, pure, Except.pure, throw, throwThe, MonadExceptOf.throw, hdir]

end ArchiveFs

namespace EntryIndex

variable {es : List Insertion} {names init rest : List Text} {name : Text}

/-- What is above a path that is known is known. -/
lemma isSome_info?_init (hnames : ∀ name ∈ init ++ rest, EntryPath.IsTidy name)
    (hknown : ((ofInsertions es).info? (EntryPath.ofNames (init ++ rest))).isSome = true) :
    ((ofInsertions es).info? (EntryPath.ofNames init)).isSome = true := by
  induction rest using List.reverseRecOn with
  | nil => rwa [List.append_nil] at hknown
  | append_singleton rest last ih =>
    rw [← List.append_assoc] at hnames hknown
    refine ih (fun name hmem => hnames name (List.mem_append_left _ hmem)) ?_
    have hne : EntryPath.ofNames (init ++ rest ++ [last]) ≠ EntryPath.root := by
      rw [Ne, EntryPath.ofNames_eq_root_iff fun name hmem => (hnames name hmem).toIsName]
      simp
    have habove := ((hangs_ofInsertions es).hung _ hknown hne hne).1
    rwa [EntryPath.parent_concat hnames] at habove

/-- A path that is known is a file exactly if the first entry that was inserted there is one. -/
lemma exists_get?_isDir_iff (hnames : ∀ name ∈ names, EntryPath.IsTidy name)
    (hknown : ((ofInsertions es).info? (EntryPath.ofNames names)).isSome = true) :
    ∃ info, (ofInsertions es).get? (EntryPath.ofNames names) = some info ∧
      (info.isDir = false ↔
        ∃ e, standing? es (EntryPath.ofNames names) = some e ∧ e.isDir = false) := by
  rw [get?, EntryPath.normalize_ofNames hnames]
  have hinfo := info?_ofInsertions es (EntryPath.ofNames names)
  cases hstands : standing? es (EntryPath.ofNames names) with
  | some e =>
    rw [hstands] at hinfo
    exact ⟨e.info, hinfo, by simp [Insertion.info, EntryInfo.ofEntry]⟩
  | none =>
    rw [hstands] at hinfo
    rcases hinfo with hnone | hmade
    · rw [hnone] at hknown
      cases hknown
    · exact ⟨EntryInfo.directory, hmade, by simp [EntryInfo.directory]⟩

/-- No file stands above a path. -/
def NoFileAbove (es : List Insertion) (names : List Text) : Prop :=
  ∀ init rest, names = init ++ rest → rest ≠ [] →
    ∀ e, standing? es (EntryPath.ofNames init) = some e → e.isDir = true

lemma noFileAbove_nil : NoFileAbove es [] := fun _ _ hsplit hrest =>
  absurd (List.append_eq_nil_iff.mp hsplit.symm).2 hrest

lemma noFileAbove_concat : NoFileAbove es (init ++ [name]) ↔ NoFileAbove es init ∧
    ∀ e, standing? es (EntryPath.ofNames init) = some e → e.isDir = true := by
  constructor
  · intro h
    refine ⟨fun front rest hsplit hrest => ?_, h init [name] rfl (List.cons_ne_nil _ _)⟩
    refine h front (rest ++ [name]) ?_ (by simp)
    rw [hsplit, List.append_assoc]
  · rintro ⟨habove, hlast⟩ front rest hsplit hrest
    rcases List.eq_nil_or_concat' rest with rfl | ⟨middle, last, rfl⟩
    · exact absurd rfl hrest
    · rw [← List.append_assoc] at hsplit
      obtain ⟨hinit, -⟩ := List.append_inj' hsplit rfl
      by_cases hmiddle : middle = []
      · rw [hmiddle, List.append_nil] at hinit
        exact hinit ▸ hlast
      · exact habove front middle hinit hmiddle

section

variable {fs : ArchiveFs} (hfs : fs.archive.index = ofInsertions es) (hopen : fs.isOpen = true)

include hfs hopen

/-- The last step to a path leads from a directory above it. -/
lemma walked_of_walked_concat (hnames : ∀ other ∈ init ++ [name], EntryPath.IsTidy other)
    (h : fs.Walked (EntryPath.ofNames (init ++ [name]))) :
    fs.Walked (EntryPath.ofNames init) ∧ ∃ info,
      (ofInsertions es).get? (EntryPath.ofNames init) = some info ∧ info.isDir = true := by
  have hinit : ∀ other ∈ init, EntryPath.IsName other :=
    fun other hmem => (hnames other (List.mem_append_left _ hmem)).toIsName
  rw [EntryPath.ofNames_concat hinit] at h
  generalize hpath : EntryPath.join (EntryPath.ofNames init) name = path at h
  cases h with
  | root =>
    rw [← EntryPath.ofNames_concat hinit,
      EntryPath.ofNames_eq_root_iff fun other hmem => (hnames other hmem).toIsName] at hpath
    exact absurd hpath (by simp)
  | @step r shownNames x hwalked hlist hx =>
    obtain ⟨info, hget, hdir, rfl⟩ := (ArchiveFs.list_eq_ok_iff hopen).mp hlist
    rw [hfs] at hget hx
    obtain ⟨last, hlast, rfl⟩ := mem_list.mp hx
    have hslash := (hangs_ofInsertions es).slash_notMem hlast
    rw [stem_shown hslash] at hpath
    have hsame : EntryPath.ofNames init = r.path :=
      (EntryPath.join_inj (hnames name (by simp)).notMem hslash (List.cons_ne_nil _ _)
        hwalked.ne_nil hpath).1
    rw [hsame]
    exact ⟨hwalked, info, hget, hdir⟩

/-- A step leads down from a directory to every path that is known in it. -/
lemma walked_concat (hnames : ∀ other ∈ init ++ [name], EntryPath.IsTidy other)
    (hknown : ((ofInsertions es).info? (EntryPath.ofNames (init ++ [name]))).isSome = true)
    (hwalked : fs.Walked (EntryPath.ofNames init)) {info : EntryInfo}
    (hget : (ofInsertions es).get? (EntryPath.ofNames init) = some info)
    (hdir : info.isDir = true) : fs.Walked (EntryPath.ofNames (init ++ [name])) := by
  have hinit : ∀ other ∈ init, EntryPath.IsTidy other :=
    fun other hmem => hnames other (List.mem_append_left _ hmem)
  have hne : EntryPath.ofNames (init ++ [name]) ≠ EntryPath.root := by
    rw [Ne, EntryPath.ofNames_eq_root_iff fun other hmem => (hnames other hmem).toIsName]
    simp
  have hlisted := ((hangs_ofInsertions es).hung _ hknown hne hne).2
  rw [EntryPath.parent_concat hnames, EntryPath.filename_concat hnames,
    ← EntryPath.normalize_ofNames hinit] at hlisted
  have hmem := mem_list.mpr ⟨name, hlisted, rfl⟩
  have hlist := (ArchiveFs.list_eq_ok_iff (r := ⟨fs.root, EntryPath.ofNames init, none⟩) hopen).mpr
    ⟨info, hfs ▸ hget, hdir, rfl⟩
  rw [EntryPath.ofNames_concat fun other hmem => (hinit other hmem).toIsName,
    ← stem_shown (hnames name (by simp)).notMem]
  exact .step hwalked hlist (hfs ▸ hmem)

/-- A path that is known is reached exactly if no file stands above it. -/
lemma walked_iff_noFileAbove (hnames : ∀ name ∈ names, EntryPath.IsTidy name)
    (hknown : ((ofInsertions es).info? (EntryPath.ofNames names)).isSome = true) :
    fs.Walked (EntryPath.ofNames names) ↔ NoFileAbove es names := by
  induction names using List.reverseRecOn with
  | nil => exact iff_of_true .root noFileAbove_nil
  | append_singleton init name ih =>
    have hinit : ∀ other ∈ init, EntryPath.IsTidy other :=
      fun other hmem => hnames other (List.mem_append_left _ hmem)
    have habove := isSome_info?_init hnames hknown
    have hwalk := ih hinit habove
    obtain ⟨info, hget, hfile⟩ := exists_get?_isDir_iff hinit habove
    rw [noFileAbove_concat, ← hwalk]
    constructor
    · intro h
      obtain ⟨hwalked, info', hget', hdir⟩ := walked_of_walked_concat hfs hopen hnames h
      obtain rfl : info' = info := Option.some_inj.mp (hget'.symm.trans hget)
      refine ⟨hwalked, fun e he => ?_⟩
      by_contra hnot
      rw [hfile.mpr ⟨e, he, by simpa using hnot⟩] at hdir
      cases hdir
    · rintro ⟨hwalked, hdirs⟩
      refine walked_concat hfs hopen hnames hknown hwalked hget ?_
      by_contra hnot
      obtain ⟨e, he, hfalse⟩ := hfile.mp (by simpa using hnot)
      rw [hdirs e he] at hfalse
      cases hfalse

end

/-! ## The law -/

/-- What is above a path in the index is in the index, as a directory unless the first entry that was
inserted there is a file; and the path is reached through the listings of an open archive exactly if
no file stands above it. The path is spelled by names that do not end in a blank. -/
theorem descent_exact {es : List Insertion} {names : List Text}
    (hnames : ∀ name ∈ names, EntryPath.IsTidy name)
    (hknown : ((ofInsertions es).get? (EntryPath.ofNames names)).isSome = true) :
    (∀ init rest, names = init ++ rest → rest ≠ [] →
      ∃ info, (ofInsertions es).get? (EntryPath.ofNames init) = some info ∧
        (info.isDir = false ↔
          ∃ e, standing? es (EntryPath.ofNames init) = some e ∧ e.isDir = false)) ∧
    ∀ fs : ArchiveFs, fs.archive.index = ofInsertions es → fs.isOpen = true →
      (fs.Walked (EntryPath.ofNames names) ↔ NoFileAbove es names) := by
  rw [get?, EntryPath.normalize_ofNames hnames] at hknown
  refine ⟨?_, fun fs hfs hopen => walked_iff_noFileAbove hfs hopen hnames hknown⟩
  rintro init rest rfl -
  exact exists_get?_isDir_iff (fun name hmem => hnames name (List.mem_append_left _ hmem))
    (isSome_info?_init hnames hknown)

/-- In an archive as it is opened a path is reached from the root exactly if the archive names no file
above it. -/
theorem walked_iff_of_openAt {h : Host} {root : Url} {path : Path} {config : CacheConfig}
    {fs : ArchiveFs} (hfs : ArchiveFs.openAt h root path config = .ok fs) {names : List Text}
    (hnames : ∀ name ∈ names, EntryPath.IsTidy name)
    (hknown : (fs.archive.index.info? (EntryPath.ofNames names)).isSome = true) :
    fs.Walked (EntryPath.ofNames names) ↔
      NoFileAbove (Archive.insertions fs.archive.entries) names := by
  obtain ⟨-, hopen, -, hindex⟩ := ArchiveFs.eq_of_openAt hfs
  rw [Archive.indexOf_eq] at hindex
  rw [hindex] at hknown
  exact walked_iff_noFileAbove hindex hopen hnames hknown

/-- An archive that names a file where it has named a path below, and the directory above both. -/
def clashingInsertions : List Insertion :=
  [⟨"docs/guide/page".toList, 0, false, 3⟩, ⟨"docs/guide".toList, 1, false, 4⟩,
    ⟨"docs/".toList, 2, true, 0⟩]

/-- An open archive with these entries. -/
def clashingArchive : ArchiveFs where
  root := ⟨"zip".toList, none, "file:///z!/".toList, none, none⟩
  file := 0
  modified := .tick 0
  archive := ⟨[], ofInsertions clashingInsertions⟩
  cache := .empty {}
  isOpen := true

/-- The file is reached, and what is named below it is not. -/
theorem descent_of_clashingInsertions :
    ((ofInsertions clashingInsertions).get?
      (EntryPath.ofNames ["docs".toList, "guide".toList])).isSome = true ∧
    ((ofInsertions clashingInsertions).get?
      (EntryPath.ofNames ["docs".toList, "guide".toList, "page".toList])).isSome = true ∧
    clashingArchive.Walked (EntryPath.ofNames ["docs".toList, "guide".toList]) ∧
    ¬ clashingArchive.Walked
      (EntryPath.ofNames ["docs".toList, "guide".toList, "page".toList]) := by
  have hguide : ∀ name ∈ ["docs".toList, "guide".toList], EntryPath.IsTidy name :=
    Insertion.Tidy.isTidy (e := ⟨"docs/guide".toList, 1, false, 4⟩) (by decide)
  have hpage : ∀ name ∈ ["docs".toList, "guide".toList, "page".toList], EntryPath.IsTidy name :=
    Insertion.Tidy.isTidy (e := ⟨"docs/guide/page".toList, 0, false, 3⟩) (by decide)
  refine ⟨by decide, by decide, ?_, ?_⟩
  · refine ((descent_exact hguide (by decide)).2 clashingArchive rfl rfl).mpr ?_
    have hstands : standing? clashingInsertions (EntryPath.ofNames ["docs".toList]) =
      some ⟨"docs/".toList, 2, true, 0⟩ := by decide
    have hdocs : NoFileAbove clashingInsertions ([] ++ ["docs".toList]) :=
      noFileAbove_concat.mpr ⟨noFileAbove_nil, fun e he => by cases he⟩
    change NoFileAbove clashingInsertions (["docs".toList] ++ ["guide".toList])
    refine noFileAbove_concat.mpr ⟨hdocs, fun e he => ?_⟩
    obtain rfl := Option.some_inj.mp (hstands.symm.trans he)
    rfl
  · rw [(descent_exact hpage (by decide)).2 clashingArchive rfl rfl]
    intro hfree
    have hdir := hfree ["docs".toList, "guide".toList] ["page".toList] rfl (List.cons_ne_nil _ _)
      ⟨"docs/guide".toList, 1, false, 4⟩ (by decide)
    cases hdir

/-- An entry that is named below a file is in the index, and the file is not a directory. -/
theorem exists_entry_below_file :
    let es : List Insertion := [⟨"a".toList, 0, false, 1⟩, ⟨"a/b".toList, 1, false, 2⟩]
    (ofInsertions es).get? "/a/b".toList = some ⟨some 1, false, 2⟩ ∧
    (ofInsertions es).get? (EntryPath.parent "/a/b".toList) = some ⟨some 0, false, 1⟩ := by
  decide

end EntryIndex

end ContentMounts
