import ContentMounts.Archive.FileSystem
import ContentMounts.Proofs.Archive.Reread

/-!
# Spellings of entries

A resource of an archive is flagged by an alias if its address spells the path of the entry in
another way than the index does. The path is brought to normal form once for that comparison, and
once more when the entry is looked up. The two agree for all addresses but one kind: if the entry
ends in a blank and one slash, the slash is left out of the comparison and the blank stays, while
the look-up trims it. Such an address may have no alias and still lead to an entry of another name
(`spelling_eq_key_iff`).
-/

namespace ContentMounts

/-- What is found under a path in any spelling, with the key under which it is recorded. -/
def EntryIndex.found? (ix : EntryIndex) (path : Text) : Option (Text × EntryInfo) :=
  ix.entries.find? fun (key, _) => key == EntryPath.normalize path

/-- A look-up finds the entry without its key. -/
lemma EntryIndex.get?_eq (ix : EntryIndex) (path : Text) :
    ix.get? path = (ix.found? path).map (·.2) := by
  rw [get?, info?, found?]
  induction ix.entries with
  | nil => rfl
  | cons pair rest ih =>
    obtain ⟨key, info⟩ := pair
    rw [List.lookup_cons, List.find?_cons, BEq.comm, ih]
    cases hkey : key == EntryPath.normalize path <;> simp [hkey]

lemma EntryIndex.key_of_found? {ix : EntryIndex} {path key : Text} {info : EntryInfo}
    (h : ix.found? path = some (key, info)) : key = EntryPath.normalize path := by
  simpa using List.find?_some h

namespace ArchiveResource

/-- An entry is spelled with a blank before one slash at its end. -/
def BlankBeforeSlash (entry : Text) : Prop :=
  ∃ before c, entry = before ++ [c, '/'] ∧ Text.isBlank c = true

/-- The spelling of an entry that ends in a slash leaves that out. -/
lemma literal_concat_slash (t : Text) : literal (t ++ ['/']) = '/' :: t := by
  simp [literal]

lemma literal_of_ne {entry : Text} (h : entry.getLast? ≠ some '/') :
    literal entry = '/' :: entry := by
  rw [literal, if_neg h]

lemma blankBeforeSlash_concat_iff {t : Text} :
    BlankBeforeSlash (t ++ ['/']) ↔ t.endsInBlank = true := by
  rw [Text.endsInBlank_iff]
  constructor
  · rintro ⟨before, c, hentry, hc⟩
    exact ⟨before, c, List.append_cancel_right (hentry.trans (List.append_cons before c ['/'])), hc⟩
  · rintro ⟨before, c, rfl, hc⟩
    exact ⟨before, c, (List.append_cons before c ['/']).symm, hc⟩

/-- A spelling that is its own normal form names the key, unless it has a blank before a slash at
its end. -/
theorem normalize_eq_literal_iff {entry : Text} (h : literal entry = EntryPath.normalize entry) :
    EntryPath.normalize (EntryPath.normalize entry) = literal entry ↔
      ¬ BlankBeforeSlash entry := by
  rw [h, EntryPath.normalize_normalize_iff, ← h, ← Bool.not_eq_true, not_iff_not]
  by_cases hlast : entry.getLast? = some '/'
  · obtain ⟨t, rfl⟩ := List.getLast?_eq_some_iff.mp hlast
    rw [literal_concat_slash, Text.endsInBlank_slash_cons, blankBeforeSlash_concat_iff]
  · -- without a slash at its end the spelling is as long as the entry, which was trimmed
    rw [literal_of_ne hlast, Text.endsInBlank_slash_cons]
    refine iff_of_false (fun hblank => ?_) ?_
    · obtain ⟨before, c, hentry, hc⟩ := Text.endsInBlank_iff.mp hblank
      have hlen := EntryPath.length_normalize_le entry
      have htrim := Text.length_trim_concat_le hc before
      rw [← h, literal_of_ne hlast, hentry] at hlen
      simp only [List.length_cons, List.length_append, List.length_nil] at hlen
      omega
    · rintro ⟨before, c, hentry, -⟩
      rw [hentry] at hlast
      exact hlast (by simp)

end ArchiveResource

namespace ArchiveFs

variable {fs : ArchiveFs} {host : Host} {uri : Url} {r : ArchiveResource}

/-- A resource is made from the entry of its address. -/
lemma eq_ofEntry_of_resource (h : fs.resource host uri = .ok r) :
    r = ArchiveResource.ofEntry uri (Uri.containerEntry uri) := by
  unfold resource at h
  cases hopen : fs.ensureOpen with
  | error e =>
    rw [hopen] at h
    cases h
  | ok _ =>
    cases hroot : Archive.root host uri with
    | error e =>
      rw [hopen, hroot] at h
      cases h
    | ok found =>
      rw [hopen, hroot] at h
      simp only [bind, Except.bind, Except.mapError, throw, throwThe, MonadExceptOf.throw, pure,
        Except.pure] at h
      split at h
      · cases h
      · exact (Except.ok.inj h).symm

/-- An address without an alias spells the normal form of its entry. -/
lemma literal_eq_of_resource (h : fs.resource host uri = .ok r) (halias : r.aliasPath = none) :
    ArchiveResource.literal (Uri.containerEntry uri) =
      EntryPath.normalize (Uri.containerEntry uri) := by
  rw [eq_ofEntry_of_resource h, ArchiveResource.ofEntry] at halias
  by_contra hne
  simp [hne] at halias

/-- The key that an address without an alias leads to is the spelling of its entry, unless that has
a blank before a slash at its end. -/
lemma literal_eq_key_iff (h : fs.resource host uri = .ok r) (halias : r.aliasPath = none)
    {key : Text} {info : EntryInfo} (hkey : fs.archive.index.found? r.path = some (key, info)) :
    ArchiveResource.literal (Uri.containerEntry uri) = key ↔
      ¬ ArchiveResource.BlankBeforeSlash (Uri.containerEntry uri) := by
  have hpath : r.path = EntryPath.normalize (Uri.containerEntry uri) := by
    rw [eq_ofEntry_of_resource h]
    rfl
  rw [EntryIndex.key_of_found? hkey, hpath, eq_comm]
  exact ArchiveResource.normalize_eq_literal_iff (literal_eq_of_resource h halias)

/-- Something is there exactly if the index has an entry for it. -/
lemma exists_found?_of_pathExists (h : fs.pathExists r = .ok true) :
    ∃ key info, fs.archive.index.found? r.path = some (key, info) := by
  unfold pathExists at h
  cases hopen : fs.ensureOpen with
  | error e =>
    rw [hopen] at h
    cases h
  | ok _ =>
    rw [hopen] at h
    have hsome : (fs.archive.index.get? r.path).isSome = true := Except.ok.inj h
    rw [EntryIndex.get?_eq, Option.isSome_map] at hsome
    obtain ⟨⟨key, info⟩, hpair⟩ := Option.isSome_iff_exists.mp hsome
    exact ⟨key, info, hpair⟩

/-- Let an address lead to something in an archive without being flagged. Then its entry is spelled
as the index has it, up to one slash at the end, exactly if there is no blank before that slash; and
an address of that kind that leads to the same entry, and is not flagged either, spells it the same
exactly if it has no blank before a slash at its end. -/
theorem spelling_eq_key_iff (h : fs.resource host uri = .ok r) (halias : r.aliasPath = none)
    (hexists : fs.pathExists r = .ok true) :
    ∃ key info, fs.archive.index.found? r.path = some (key, info) ∧
      (ArchiveResource.literal (Uri.containerEntry uri) = key ↔
        ¬ ArchiveResource.BlankBeforeSlash (Uri.containerEntry uri)) ∧
      ∀ host' uri' r', fs.resource host' uri' = .ok r' → r'.aliasPath = none →
        fs.archive.index.found? r'.path = some (key, info) →
        ¬ ArchiveResource.BlankBeforeSlash (Uri.containerEntry uri) →
        (ArchiveResource.literal (Uri.containerEntry uri') =
            ArchiveResource.literal (Uri.containerEntry uri) ↔
          ¬ ArchiveResource.BlankBeforeSlash (Uri.containerEntry uri')) := by
  obtain ⟨key, info, hkey⟩ := exists_found?_of_pathExists hexists
  refine ⟨key, info, hkey, literal_eq_key_iff h halias hkey, ?_⟩
  intro host' uri' r' h' halias' hkey' hplain
  rw [(literal_eq_key_iff h halias hkey).mpr hplain]
  exact literal_eq_key_iff h' halias' hkey'

/-! ### An archive with one file -/

/-- The key that an address leads to in the archive at a path, unless it is flagged. -/
def unflaggedKey? (host : Host) (root : Url) (path : Path) (uri : Url) : Option Text := do
  let fs ← (openAt host root path {}).toOption
  let r ← (fs.resource host uri).toOption
  let (key, _) ← fs.archive.index.found? r.path
  if r.aliasPath = none ∧ (fs.pathExists r).toOption = some true then some key else none

lemma exists_of_unflaggedKey? {root : Url} {path : Path} {key : Text}
    (h : unflaggedKey? host root path uri = some key) :
    ∃ fs r info, openAt host root path {} = .ok fs ∧ fs.resource host uri = .ok r ∧
      r.aliasPath = none ∧ fs.pathExists r = .ok true ∧
      fs.archive.index.found? r.path = some (key, info) := by
  obtain ⟨fs, hfs, h⟩ := Option.bind_eq_some_iff.mp h
  obtain ⟨r, hr, h⟩ := Option.bind_eq_some_iff.mp h
  obtain ⟨⟨found, info⟩, hfound, h⟩ := Option.bind_eq_some_iff.mp h
  dsimp only at h
  split at h
  · next hboth =>
    obtain rfl : found = key := Option.some.inj h
    exact ⟨fs, r, info, eq_ok_of_toOption hfs, eq_ok_of_toOption hr, hboth.1,
      eq_ok_of_toOption hboth.2, hfound⟩
  · cases h

/-- An archive with an empty file `a`. -/
def sampleBytes : Bytes :=
  [0x50, 0x4B, 3, 4] ++ List.replicate 22 0 ++ [1, 0, 0, 0, 97] ++
  [0x50, 0x4B, 1, 2] ++ List.replicate 24 0 ++ [1] ++ List.replicate 17 0 ++ [97] ++
  [0x50, 0x4B, 5, 6, 0, 0, 0, 0, 1, 0, 1, 0, 47, 0, 0, 0, 31, 0, 0, 0, 0, 0]

/-- A host whose only file is that archive, at `/z`. -/
def sampleHost : Host := ⟨.tick 0, [([122], .file 0)], [⟨sampleBytes, .tick 0⟩], 1, []⟩

/-- The root address of that archive, and an address behind it. -/
def sampleUri (entry : String) : Url :=
  ⟨"jar".toList, none, "file:///z!/".toList ++ entry.toList, none, none⟩

/-- The address of the file in the archive is spelled as the index has it. -/
theorem spelling_eq_key_of_sample :
    ∃ fs r key info, openAt sampleHost (sampleUri "") ⟨[47, 122]⟩ {} = .ok fs ∧
      fs.resource sampleHost (sampleUri "a") = .ok r ∧ r.aliasPath = none ∧
      fs.pathExists r = .ok true ∧ fs.archive.index.found? r.path = some (key, info) ∧
      (ArchiveResource.literal (Uri.containerEntry (sampleUri "a")) = key ↔
        ¬ ArchiveResource.BlankBeforeSlash (Uri.containerEntry (sampleUri "a"))) := by
  have hkey : unflaggedKey? sampleHost (sampleUri "") ⟨[47, 122]⟩ (sampleUri "a") =
      some "/a".toList := by decide +kernel
  obtain ⟨fs, r, -, hfs, hr, halias, hexists, -⟩ := exists_of_unflaggedKey? hkey
  obtain ⟨key, info, hfound, hiff, -⟩ := spelling_eq_key_iff hr halias hexists
  exact ⟨fs, r, key, info, hfs, hr, halias, hexists, hfound, hiff⟩

/-- With a blank and a slash behind it the address is not flagged either and leads to the same file,
though it spells another name. -/
theorem spelling_ne_key_of_blank :
    Url.parse "jar:file:///z!/a%20/".toList = .ok (sampleUri "a%20/") ∧
    ∃ fs r key info, openAt sampleHost (sampleUri "") ⟨[47, 122]⟩ {} = .ok fs ∧
      fs.resource sampleHost (sampleUri "a%20/") = .ok r ∧ r.aliasPath = none ∧
      fs.pathExists r = .ok true ∧ fs.archive.index.found? r.path = some (key, info) ∧
      ArchiveResource.literal (Uri.containerEntry (sampleUri "a%20/")) ≠ key := by
  have hkey : unflaggedKey? sampleHost (sampleUri "") ⟨[47, 122]⟩ (sampleUri "a%20/") =
      some "/a".toList := by decide +kernel
  obtain ⟨fs, r, info, hfs, hr, halias, hexists, hfound⟩ := exists_of_unflaggedKey? hkey
  have hparse : Url.parse "jar:file:///z!/a%20/".toList = .ok (sampleUri "a%20/") :=
    eq_ok_of_toOption (by decide +kernel)
  refine ⟨hparse, fs, r, _, info, hfs, hr, halias, hexists, hfound, ?_⟩
  decide +kernel

end ArchiveFs

end ContentMounts
