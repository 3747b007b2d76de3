import ContentMounts.Proofs.Archive.Index
import ContentMounts.Proofs.Archive.Spelling
import ContentMounts.Proofs.Provider.Archives

/-!
# The cache shows nothing of itself

What is kept of an archive is kept under the normal form of a path, and so is what the index knows;
the content of a resource depends on no more of the resource than that key (`content_eq_of_key`).
All that is ever kept is therefore *genuine*: it is what the archive itself has under that key, as
long as the bytes of its file stay the same.

`Reading.run` follows an archive while it is read: content is kept, expires and is dropped at will,
and a reader may be so slow that it stores its content after others have read, or after the archive
was closed. Whatever happened, the next reader is answered as if there were no cache
(`cache_transparent`).
-/

namespace ContentMounts

namespace Archive

/-- The content of a resource in an archive with the given bytes: that of the entry which the index
holds for it. -/
def content (a : Archive) (bytes : Bytes) (r : ArchiveResource) : Except ResourceError Bytes :=
  match a.index.get? r.path with
  | none => .error (.notFound r.name)
  | some info =>
    if info.isDir then .error (.isADirectory r.name)
    else
      match info.index with
      | some i => a.readEntry bytes i
      | none => .error (.notFound r.name)

variable {a : Archive} {bytes : Bytes}

/-- The content of a resource is decompressed from an entry whose name has the path of the
resource. -/
lemma content_eq_read (ha : a.index = indexOf a.entries) {r : ArchiveResource} {info : EntryInfo}
    (hinfo : a.index.get? r.path = some info) (hdir : info.isDir = false) :
    ∃ i e, info.index = some i ∧ a.entries[i]? = some e ∧
      EntryPath.normalize e.name = EntryPath.normalize r.path ∧
      a.content bytes r = e.read bytes := by
  obtain ⟨i, e, hi, he, hname, -⟩ := entry_of_get? ha hinfo hdir
  refine ⟨i, e, hi, he, hname, ?_⟩
  unfold content readEntry
  rw [hinfo]
  dsimp only
  rw [if_neg (by rw [hdir]; exact Bool.false_ne_true), hi]
  dsimp only
  rw [he]

/-- Resources that are looked up under one key have the same content. -/
lemma content_eq_of_key {r r' : ArchiveResource} {found : Bytes}
    (hkey : EntryPath.normalize r'.path = EntryPath.normalize r.path)
    (h : a.content bytes r = .ok found) : a.content bytes r' = .ok found := by
  have hget : a.index.get? r'.path = a.index.get? r.path := by
    rw [EntryIndex.get?, EntryIndex.get?, hkey]
  unfold content at h ⊢
  rw [hget]
  cases hinfo : a.index.get? r.path with
  | none =>
    rw [hinfo] at h
    cases h
  | some info =>
    rw [hinfo] at h
    dsimp only at h ⊢
    split at h
    · cases h
    · next hdir =>
      rw [if_neg hdir]
      cases hi : info.index with
      | none =>
        rw [hi] at h
        cases h
      | some i =>
        rw [hi] at h
        exact h

end Archive

namespace EntryCache

variable {c : EntryCache} {P : Text × Bytes → Prop}

/-- A cache keeps no more than it is given. -/
lemma forall_mem_put {path : Text} {found : Bytes} (hnew : P (EntryPath.normalize path, found))
    (h : ∀ kept ∈ c.contents, P kept) : ∀ kept ∈ (c.put path found).contents, P kept := by
  unfold put
  split
  · intro kept hkept
    rcases Assoc.eq_or_mem_of_mem_put hkept with rfl | hold
    · exact hnew
    · exact h kept hold
  · exact h

end EntryCache

namespace ArchiveFs

/-- The bytes of the file of an archive. -/
def container (fs : ArchiveFs) (h : Host) : Bytes :=
  ((h.stored? fs.file).map (·.content)).getD []

variable {fs : ArchiveFs}

/-- Without a cache, an open archive gives the content of a resource as the archive has it. -/
lemma readFile_of_isOpen (hopen : fs.isOpen = true) (h : Host) (r : ArchiveResource) :
    fs.readFile h r = fs.archive.content (fs.container h) r := by
  unfold readFile contentIndex entry Archive.content
  rw [ensureOpen, if_pos hopen]
  cases fs.archive.index.get? r.path with
  | none => rfl
  | some info =>
    obtain ⟨index, isDir, size⟩ := info
    cases isDir with
    | true => rfl
    | false =>
      cases index with
      | none => rfl
      | some i => rfl

/-- A closed archive gives nothing, with or without a cache. -/
lemma read_of_closed (hclosed : fs.isOpen = false) (h : Host) (r : ArchiveResource) :
    fs.read h r = (.error (.staleMount fs.root.text), fs) ∧
      fs.readFile h r = .error (.staleMount fs.root.text) := by
  have hindex : fs.contentIndex r = .error (.staleMount fs.root.text) := by
    unfold contentIndex entry
    rw [ensureOpen, if_neg (by rw [hclosed]; exact Bool.false_ne_true)]
    rfl
  constructor
  · rw [read, hindex]
  · rw [readFile, hindex]
    rfl

/-! ## Genuine content -/

/-- What an archive with the given bytes has under a key. -/
def Genuine (a : Archive) (bytes : Bytes) (kept : Text × Bytes) : Prop :=
  ∀ r : ArchiveResource, EntryPath.normalize r.path = kept.1 → a.content bytes r = .ok kept.2

lemma genuine_of_content {a : Archive} {bytes found : Bytes} {r : ArchiveResource}
    (h : a.content bytes r = .ok found) :
    Genuine a bytes (EntryPath.normalize r.path, found) :=
  fun _ hkey => Archive.content_eq_of_key hkey h

variable {bytes : Bytes}

/-- A reader is answered from genuine content as from the archive, and keeps genuine content. -/
lemma read_of_genuine {h : Host} (hbytes : fs.container h = bytes)
    (hcache : ∀ kept ∈ fs.cache.contents, Genuine fs.archive bytes kept) (r : ArchiveResource) :
    (fs.read h r).1 = fs.readFile h r ∧
      ∀ kept ∈ (fs.read h r).2.cache.contents, Genuine fs.archive bytes kept := by
  cases hopen : fs.isOpen with
  | false =>
    obtain ⟨hread, hfile⟩ := read_of_closed hopen h r
    rw [hread, hfile]
    exact ⟨rfl, hcache⟩
  | true =>
    have hfile := readFile_of_isOpen hopen h r
    rw [hbytes] at hfile
    unfold read
    cases hindex : fs.contentIndex r with
    | error e =>
      refine ⟨?_, hcache⟩
      rw [readFile, hindex]
      rfl
    | ok i =>
      cases hlook : fs.cache.get? r.path with
      | some found =>
        refine ⟨?_, hcache⟩
        rw [hfile]
        exact (hcache _ (Assoc.mem_of_lookup hlook) r rfl).symm
      | none =>
        dsimp only
        cases hread : fs.readFile h r with
        | error e => exact ⟨rfl, hcache⟩
        | ok found =>
          refine ⟨rfl, ?_⟩
          rw [hread] at hfile
          exact EntryCache.forall_mem_put (genuine_of_content hfile.symm) hcache

end ArchiveFs

/-! ## Reading an archive -/

/-- An archive that is read, and content that slow readers have decompressed and not stored yet. -/
structure Reading where
  fs : ArchiveFs
  late : List (Text × Bytes)

namespace Reading

/-- What happens to an archive while it is read. -/
inductive Move where
  /-- A reader finds the content of a resource and stores it. -/
  | reads (h : Host) (r : ArchiveResource)
  /-- A reader finds the content of a resource and is overtaken before it stores it. -/
  | lingers (h : Host) (r : ArchiveResource)
  /-- A reader that was overtaken stores what it has found. -/
  | stores (n : Nat)
  /-- Content expires or is dropped. -/
  | drops (stays : Text → Bool)
  | closes

/-- A reader finds the bytes of the file as they are given. -/
def Move.Finds (fs : ArchiveFs) (bytes : Bytes) : Move → Prop
  | reads h _ => fs.container h = bytes
  | lingers h _ => fs.container h = bytes
  | _ => True

/-- An archive before anybody has read it. -/
def ofArchive (fs : ArchiveFs) : Reading := ⟨fs, []⟩

/-- What a move makes of the archive and of the content that is still to be stored. -/
def step (st : Reading) : Move → Reading
  | .reads h r => { st with fs := (st.fs.read h r).2 }
  | .lingers h r =>
    match st.fs.readFile h r with
    | .ok found => { st with late := st.late ++ [(r.path, found)] }
    | .error _ => st
  | .stores n =>
    match st.late[n]? with
    | some (path, found) => { st with fs.cache := st.fs.cache.put path found }
    | none => st
  | .drops stays =>
    { st with fs.cache.contents := st.fs.cache.contents.filter fun (key, _) => stays key }
  | .closes => { st with fs := st.fs.close }

/-- What several moves make of it, one after the other. -/
def run (moves : List Move) (st : Reading) : Reading := moves.foldl step st

/-- An archive is still the one that was opened, and all that is kept of it, or will be, is
genuine. -/
structure Sound (fs : ArchiveFs) (bytes : Bytes) (st : Reading) : Prop where
  root_eq : st.fs.root = fs.root
  file_eq : st.fs.file = fs.file
  archive_eq : st.fs.archive = fs.archive
  genuine : ∀ kept ∈ st.fs.cache.contents, ArchiveFs.Genuine fs.archive bytes kept
  genuine_late : ∀ kept ∈ st.late,
    ArchiveFs.Genuine fs.archive bytes (EntryPath.normalize kept.1, kept.2)

variable {fs : ArchiveFs} {bytes : Bytes} {st : Reading}

/-- Only the cache differs. -/
lemma Sound.of_cache (hst : st.Sound fs bytes) {cache : EntryCache}
    (h : ∀ kept ∈ cache.contents, ArchiveFs.Genuine fs.archive bytes kept) :
    Sound fs bytes { st with fs.cache := cache } :=
  ⟨hst.root_eq, hst.file_eq, hst.archive_eq, h, hst.genuine_late⟩

/-- The bytes that a reader finds are those of the file that was opened. -/
lemma Sound.container_eq (hst : st.Sound fs bytes) (h : Host) :
    st.fs.container h = fs.container h := by
  rw [ArchiveFs.container, ArchiveFs.container, hst.file_eq]

/-- A reader of an archive is answered as without a cache. -/
lemma Sound.read (hst : st.Sound fs bytes) {h : Host} (hbytes : fs.container h = bytes)
    (r : ArchiveResource) :
    (st.fs.read h r).1 = st.fs.readFile h r ∧
      Sound fs bytes { st with fs := (st.fs.read h r).2 } := by
  have hgenuine := hst.genuine
  rw [← hst.archive_eq] at hgenuine
  obtain ⟨hanswer, hcache⟩ :=
    ArchiveFs.read_of_genuine ((hst.container_eq h).trans hbytes) hgenuine r
  obtain ⟨cache, hkept⟩ := st.fs.exists_cache_read h r
  refine ⟨hanswer, ?_⟩
  rw [hst.archive_eq, hkept] at hcache
  rw [hkept]
  exact hst.of_cache hcache

/-- A move keeps an archive sound, and no move but one closes it. -/
lemma Sound.step (hst : st.Sound fs bytes) {move : Move} (hmove : move.Finds fs bytes) :
    (st.step move).Sound fs bytes ∧
      ((st.step move).fs.isOpen = true ↔ st.fs.isOpen = true ∧ move ≠ .closes) := by
  cases move with
  | reads h r =>
    obtain ⟨-, hsound⟩ := hst.read hmove r
    obtain ⟨cache, hkept⟩ := st.fs.exists_cache_read h r
    refine ⟨hsound, ?_⟩
    change (st.fs.read h r).2.isOpen = true ↔ _
    rw [hkept]
    simp
  | lingers h r =>
    unfold Reading.step
    dsimp only
    cases hread : st.fs.readFile h r with
    | error e => exact ⟨hst, by simp⟩
    | ok found =>
      refine ⟨⟨hst.root_eq, hst.file_eq, hst.archive_eq, hst.genuine, fun kept hkept => ?_⟩,
        by simp⟩
      rcases List.mem_append.mp hkept with hold | hnew
      · exact hst.genuine_late kept hold
      · obtain rfl := List.mem_singleton.mp hnew
        refine ArchiveFs.genuine_of_content ?_
        cases hopen : st.fs.isOpen with
        | false =>
          rw [(ArchiveFs.read_of_closed hopen h r).2] at hread
          cases hread
        | true =>
          rw [ArchiveFs.readFile_of_isOpen hopen, hst.container_eq, hst.archive_eq] at hread
          rw [← hread, show fs.container h = bytes from hmove]
  | stores n =>
    unfold Reading.step
    dsimp only
    cases hlate : st.late[n]? with
    | none => exact ⟨hst, by simp⟩
    | some kept =>
      obtain ⟨path, found⟩ := kept
      refine ⟨hst.of_cache ?_, by simp⟩
      exact EntryCache.forall_mem_put (hst.genuine_late _ (List.mem_of_getElem? hlate)) hst.genuine
  | drops stays =>
    refine ⟨hst.of_cache fun kept hkept => ?_, by simp [Reading.step]⟩
    exact hst.genuine kept (List.mem_filter.mp hkept).1
  | closes =>
    refine ⟨⟨hst.root_eq, hst.file_eq, hst.archive_eq, fun kept hkept => ?_, hst.genuine_late⟩,
      by simp [Reading.step, ArchiveFs.close]⟩
    cases hkept

/-- So do several moves. -/
lemma Sound.run {moves : List Move} (hst : st.Sound fs bytes)
    (hmoves : ∀ move ∈ moves, move.Finds fs bytes) :
    (Reading.run moves st).Sound fs bytes ∧
      ((Reading.run moves st).fs.isOpen = true ↔ st.fs.isOpen = true ∧ .closes ∉ moves) := by
  induction moves generalizing st with
  | nil => exact ⟨hst, by simp [Reading.run]⟩
  | cons move rest ih =>
    obtain ⟨hsound, hopen⟩ := hst.step (hmoves move List.mem_cons_self)
    obtain ⟨hrun, hstill⟩ := ih hsound fun m hm => hmoves m (List.mem_cons_of_mem move hm)
    refine ⟨hrun, hstill.trans ?_⟩
    rw [hopen, List.mem_cons, not_or, and_assoc, ne_comm]

lemma sound_ofArchive {h : Host} {root : Url} {path : Path} {config : CacheConfig}
    (hfs : ArchiveFs.openAt h root path config = .ok fs) (bytes : Bytes) :
    (ofArchive fs).Sound fs bytes := by
  obtain ⟨-, -, hempty, -⟩ := ArchiveFs.eq_of_openAt hfs
  refine ⟨rfl, rfl, rfl, fun kept hkept => ?_, fun kept hkept => by cases hkept⟩
  rw [ofArchive, hempty] at hkept
  cases hkept

/-- However an archive was read, and whatever its cache keeps of that, as long as the bytes of its
file are those that it was opened with: every resource reads as it would without a cache, which is
the content of the entry that the index holds for it. Once the archive is closed nothing can be
read. -/
theorem cache_transparent {h : Host} {root : Url} {path : Path} {config : CacheConfig}
    (hfs : ArchiveFs.openAt h root path config = .ok fs) {moves : List Move}
    (hmoves : ∀ move ∈ moves, move.Finds fs (fs.container h)) {now : Host}
    (hnow : fs.container now = fs.container h) (r : ArchiveResource) :
    (.closes ∉ moves →
      ((run moves (ofArchive fs)).fs.read now r).1 = fs.readFile now r ∧
        ((run moves (ofArchive fs)).fs.read now r).1 =
          fs.archive.content (fs.container h) r ∧
        ∀ info, fs.archive.index.get? r.path = some info → info.isDir = false →
          ∃ i e, info.index = some i ∧ fs.archive.entries[i]? = some e ∧
            EntryPath.normalize e.name = EntryPath.normalize r.path ∧
            fs.archive.content (fs.container h) r = e.read (fs.container h)) ∧
      (.closes ∈ moves →
        ((run moves (ofArchive fs)).fs.read now r).1 = .error (.staleMount root.text)) := by
  obtain ⟨hroot, hfsOpen, -, hindex⟩ := ArchiveFs.eq_of_openAt hfs
  obtain ⟨hsound, hopen⟩ := (sound_ofArchive hfs (fs.container h)).run hmoves
  obtain ⟨hanswer, -⟩ := hsound.read hnow r
  rw [hanswer]
  constructor
  · intro hstays
    rw [ArchiveFs.readFile_of_isOpen (hopen.mpr ⟨hfsOpen, hstays⟩),
      ArchiveFs.readFile_of_isOpen hfsOpen, hsound.container_eq, hsound.archive_eq, hnow]
    exact ⟨rfl, rfl, fun info hinfo hdir => Archive.content_eq_read hindex hinfo hdir⟩
  · intro hcloses
    have hclosed : (run moves (ofArchive fs)).fs.isOpen = false :=
      Bool.eq_false_iff.mpr fun htrue => (hopen.mp htrue).2 hcloses
    rw [(ArchiveFs.read_of_closed hclosed now r).2, hsound.root_eq, hroot]

/-! ### A file that is read and moved away -/

/-- The content of an address in the archive at a path, as the archive has it. -/
def contentAt? (host : Host) (root : Url) (path : Path) (uri : Url) : Option Bytes := do
  let fs ← (ArchiveFs.openAt host root path {}).toOption
  let r ← (fs.resource host uri).toOption
  (fs.archive.content (fs.container host) r).toOption

lemma exists_of_contentAt? {host : Host} {root uri : Url} {path : Path} {found : Bytes}
    (h : contentAt? host root path uri = some found) :
    ∃ fs r, ArchiveFs.openAt host root path {} = .ok fs ∧ fs.resource host uri = .ok r ∧
      fs.archive.content (fs.container host) r = .ok found := by
  obtain ⟨fs, hfs, h⟩ := Option.bind_eq_some_iff.mp h
  obtain ⟨r, hr, h⟩ := Option.bind_eq_some_iff.mp h
  exact ⟨fs, r, eq_ok_of_toOption hfs, eq_ok_of_toOption hr, eq_ok_of_toOption h⟩

/-- The sample archive once its file has lost its name. -/
def unlinkedHost : Host := { ArchiveFs.sampleHost with rootEntries := [] }

/-- A reader lingers, others read, what is kept expires, the file is moved away, and the slow reader
stores what it has found: the file in the archive reads as before, until the archive is closed. -/
theorem cache_transparent_of_sample :
    ∃ fs r, ArchiveFs.openAt ArchiveFs.sampleHost (ArchiveFs.sampleUri "") ⟨[47, 122]⟩ {} = .ok fs ∧
      fs.resource ArchiveFs.sampleHost (ArchiveFs.sampleUri "a") = .ok r ∧
      ((run [.lingers ArchiveFs.sampleHost r, .reads ArchiveFs.sampleHost r, .drops fun _ => false,
        .stores 0] (ofArchive fs)).fs.read unlinkedHost r).1 = .ok [] ∧
      ((run [.reads ArchiveFs.sampleHost r, .lingers unlinkedHost r, .closes, .stores 0]
        (ofArchive fs)).fs.read unlinkedHost r).1 =
          .error (.staleMount (ArchiveFs.sampleUri "").text) := by
  have hcontent : contentAt? ArchiveFs.sampleHost (ArchiveFs.sampleUri "") ⟨[47, 122]⟩
      (ArchiveFs.sampleUri "a") = some [] := by decide +kernel
  obtain ⟨fs, r, hfs, hr, hcontent⟩ := exists_of_contentAt? hcontent
  have hfiles : unlinkedHost.files = ArchiveFs.sampleHost.files := rfl
  have hnow : fs.container unlinkedHost = fs.container ArchiveFs.sampleHost := by
    rw [ArchiveFs.container, ArchiveFs.container, Host.stored?, Host.stored?, hfiles]
  refine ⟨fs, r, hfs, hr, ?_, ?_⟩
  · refine ((cache_transparent hfs ?_ hnow r).1 (by simp)).2.1.trans hcontent
    simp [Move.Finds]
  · refine (cache_transparent hfs ?_ hnow r).2 (by simp)
    simp [Move.Finds, hnow]

end Reading

end ContentMounts
