import ContentMounts.Proofs.Archive.Cache

/-!
# What is found in an archive

A path leads to nothing, to a directory or to a file of an archive. Six questions can be asked of a
resource, and each of them looks the path up by itself and is refused in its own way. Yet the
answers always belong to one of the three kinds, and to one only (`ArchiveFs.tells_iff`), because
the index records of a path either an entry of the archive or a directory, and a directory without a
length (`EntryInfo.Recorded`).

The kind is that of the archive as it was opened. It stays the same whatever is read, kept or
dropped, and whatever becomes of the host, until the archive is closed and answers nothing any more
(`Reading.tells_iff_of_run`).
-/

namespace ContentMounts

/-- What is recorded of a path is an entry of the archive or a directory, and a directory has no
length. -/
structure EntryInfo.Recorded (info : EntryInfo) : Prop where
  isDir_of_index : info.index = none → info.isDir = true
  size_of_isDir : info.isDir = true → info.size = 0

/-- A failure to read content that was found. -/
inductive ResourceError.OfContent : ResourceError → Prop
  | io (cause : IoError) : OfContent (.io cause)
  | capacity (bytes : Nat) : OfContent (.capacity bytes)

lemma StoredEntry.ofContent_of_read {e : StoredEntry} {file : Bytes} {err : ResourceError}
    (h : e.read file = .error err) : err.OfContent := by
  have hchecked : ∀ content, (if Crc32.checksum content ≠ e.checksum then
      .error (.io .invalidData) else .ok content : Except ResourceError Bytes) = .error err →
      err.OfContent := by
    intro content h
    split at h
    · exact Except.error.inj h ▸ .io _
    · cases h
  unfold read at h
  simp only [bind, Except.bind, throw, throwThe, MonadExceptOf.throw, pure, Except.pure] at h
  split at h
  · exact Except.error.inj h ▸ .io _
  split at h
  · exact Except.error.inj h ▸ .io _
  split at h
  · exact Except.error.inj h ▸ .capacity _
  split at h
  · exact hchecked _ h
  · cases hdata : Inflate.decompress ((file.drop e.dataStart).take e.compressedSize) with
    | error f =>
      rw [hdata] at h
      exact Except.error.inj h ▸ .io _
    | ok content =>
      rw [hdata] at h
      exact hchecked content h

namespace Archive

variable {a : Archive}

/-- The insertions keep what is recorded as it has to be, whichever of them come first. -/
lemma recorded_of_mem (ha : a.index = indexOf a.entries) :
    ∀ pair ∈ a.index.entries, pair.2.Recorded := by
  rw [ha]
  refine forall_mem_indexOf (fun _ => ⟨fun _ => rfl, fun _ => rfl⟩) fun i e _ => ⟨?_, ?_⟩
  · intro hnone
    cases hnone
  · intro hdir
    exact if_pos hdir

lemma ofContent_of_readEntry {file : Bytes} {i : Nat} {err : ResourceError}
    (h : a.readEntry file i = .error err) : err.OfContent := by
  unfold readEntry at h
  split at h
  · exact StoredEntry.ofContent_of_read h
  · exact Except.error.inj h ▸ .io _

/-- What a path can lead to. -/
inductive Kind where
  | missing
  | directory
  | file
deriving DecidableEq, Repr

/-- What a path leads to in an archive. -/
def kindOf (a : Archive) (path : Text) : Kind :=
  match a.index.get? path with
  | none => .missing
  | some info => if info.isDir then .directory else .file

end Archive

namespace ArchiveFs

/-! ## The answers of each kind -/

section

variable (fs : ArchiveFs) (now : Host) (r : ArchiveResource)

/-- All questions are answered by one failure. -/
structure Refuses (e : ResourceError) : Prop where
  pathExists_eq : fs.pathExists r = .error e
  isDirectory_eq : fs.isDirectory r = .error e
  length_eq : fs.length r = .error e
  lastModified_eq : fs.lastModified r = .error e
  read_eq : (fs.read now r).1 = .error e
  list_eq : fs.list r = .error e

/-- The answers for what is missing. -/
structure TellsMissing : Prop where
  pathExists_eq : fs.pathExists r = .ok false
  isDirectory_eq : fs.isDirectory r = .ok false
  length_eq : fs.length r = .error (.notFound r.name)
  lastModified_eq : fs.lastModified r = .error (.notFound r.name)
  read_eq : (fs.read now r).1 = .error (.notFound r.name)
  list_eq : fs.list r = .error (.notFound r.name)

/-- The answers for a directory. -/
structure TellsDirectory : Prop where
  pathExists_eq : fs.pathExists r = .ok true
  isDirectory_eq : fs.isDirectory r = .ok true
  length_eq : fs.length r = .ok 0
  lastModified_eq : fs.lastModified r = .ok fs.modified
  read_eq : (fs.read now r).1 = .error (.isADirectory r.name)
  exists_list : ∃ names, fs.list r = .ok names

/-- The answers for a file. Its content may be impossible to read, but it is never said to be
missing or a directory. -/
structure TellsFile : Prop where
  pathExists_eq : fs.pathExists r = .ok true
  isDirectory_eq : fs.isDirectory r = .ok false
  exists_length : ∃ size, fs.length r = .ok size
  lastModified_eq : fs.lastModified r = .ok fs.modified
  read_ne_notFound : ∀ name, (fs.read now r).1 ≠ .error (.notFound name)
  read_ne_isADirectory : ∀ name, (fs.read now r).1 ≠ .error (.isADirectory name)
  list_eq : fs.list r = .error (.notADirectory r.name)

/-- The answers for a kind. -/
def Tells : Archive.Kind → Prop
  | .missing => fs.TellsMissing now r
  | .directory => fs.TellsDirectory now r
  | .file => fs.TellsFile now r

end

variable {fs : ArchiveFs} {now : Host} {r : ArchiveResource}

/-- Two of the answers tell the kinds apart. -/
lemma Tells.unique {kind other : Archive.Kind} (h : fs.Tells now r kind)
    (hother : fs.Tells now r other) : kind = other := by
  have hanswers : ∀ {k : Archive.Kind}, fs.Tells now r k →
      fs.pathExists r = .ok (k != .missing) ∧ fs.isDirectory r = .ok (k == .directory) := by
    intro k hk
    cases k with
    | missing => exact ⟨hk.pathExists_eq, hk.isDirectory_eq⟩
    | directory => exact ⟨hk.pathExists_eq, hk.isDirectory_eq⟩
    | file => exact ⟨hk.pathExists_eq, hk.isDirectory_eq⟩
  obtain ⟨hexists, hdir⟩ := hanswers h
  obtain ⟨hexists', hdir'⟩ := hanswers hother
  have hsameExists := Except.ok.inj (hexists.symm.trans hexists')
  have hsameDir := Except.ok.inj (hdir.symm.trans hdir')
  revert hsameExists hsameDir
  cases kind <;> cases other <;> decide

/-! ## What the index makes an archive answer -/

/-- Four of the questions fail if the look-up does. -/
lemma answers_of_error (now : Host) {e : ResourceError} (h : fs.entry r = .error e) :
    fs.length r = .error e ∧ fs.lastModified r = .error e ∧ (fs.read now r).1 = .error e ∧
      fs.list r = .error e := by
  refine ⟨?_, ?_, ?_, ?_⟩
  · rw [length, h]
    rfl
  · rw [lastModified, h]
    rfl
  · rw [read, contentIndex, h]
    rfl
  · rw [list, h]
    rfl

/-- A closed archive answers nothing. -/
lemma refuses_of_closed (hclosed : fs.isOpen = false) :
    fs.Refuses now r (.staleMount fs.root.text) := by
  have hensure : fs.ensureOpen = .error (.staleMount fs.root.text) := by
    rw [ensureOpen, hclosed, if_neg Bool.false_ne_true]
  have hentry : fs.entry r = .error (.staleMount fs.root.text) := by
    rw [entry, hensure]
    rfl
  obtain ⟨hlength, hmodified, hread, hlist⟩ := answers_of_error now hentry
  refine ⟨?_, ?_, hlength, hmodified, hread, hlist⟩
  · rw [pathExists, hensure]
    rfl
  · rw [isDirectory, hensure]
    rfl

/-- Content whose entry was found can only fail to be read. -/
lemma ofContent_of_read {i : Nat} (hi : fs.contentIndex r = .ok i) {err : ResourceError}
    (h : (fs.read now r).1 = .error err) : err.OfContent := by
  unfold read at h
  rw [hi] at h
  cases hkept : fs.cache.get? r.path with
  | some content =>
    rw [hkept] at h
    cases h
  | none =>
    rw [hkept] at h
    dsimp only at h
    cases hfile : fs.readFile now r with
    | ok content =>
      rw [hfile] at h
      cases h
    | error e =>
      rw [hfile] at h
      obtain rfl : e = err := Except.error.inj h
      rw [readFile, hi] at hfile
      exact Archive.ofContent_of_readEntry hfile

section

variable (hopen : fs.isOpen = true)

include hopen

lemma tellsMissing_of_get? (hget : fs.archive.index.get? r.path = none) :
    fs.TellsMissing now r := by
  have hensure : fs.ensureOpen = .ok () := if_pos hopen
  have hentry : fs.entry r = .error (.notFound r.name) := by
    rw [entry, hensure, hget]
    rfl
  obtain ⟨hlength, hmodified, hread, hlist⟩ := answers_of_error now hentry
  refine ⟨?_, ?_, hlength, hmodified, hread, hlist⟩
  · rw [pathExists, hensure, hget]
    rfl
  · rw [isDirectory, hensure, hget]
    rfl

variable {info : EntryInfo} (hget : fs.archive.index.get? r.path = some info)

include hget

/-- The answers for what is known, whether it is a file or a directory. -/
lemma answers_of_get? :
    fs.pathExists r = .ok true ∧ fs.isDirectory r = .ok info.isDir ∧
      fs.length r = .ok info.size ∧ fs.lastModified r = .ok fs.modified ∧
      fs.entry r = .ok info := by
  have hensure : fs.ensureOpen = .ok () := if_pos hopen
  have hentry : fs.entry r = .ok info := by
    rw [entry, hensure, hget]
    rfl
  refine ⟨?_, ?_, ?_, ?_, hentry⟩
  · rw [pathExists, hensure, hget]
    rfl
  · rw [isDirectory, hensure, hget]
    rfl
  · rw [length, hentry]
    rfl
  · rw [lastModified, hentry]
    rfl

lemma tellsDirectory_of_get? (hinfo : info.Recorded) (hdir : info.isDir = true) :
    fs.TellsDirectory now r := by
  obtain ⟨hexists, hisDir, hlength, hmodified, hentry⟩ := answers_of_get? hopen hget
  rw [hdir] at hisDir
  rw [hinfo.size_of_isDir hdir] at hlength
  refine ⟨hexists, hisDir, hlength, hmodified, ?_, fs.archive.index.list r.path, ?_⟩
  · rw [read, contentIndex, hentry]
    simp only [bind, Except.bind, hdir]
    rfl
  · rw [list, hentry]
    simp only [bind, Except.bind, hdir]
    rfl

lemma tellsFile_of_get? (hinfo : info.Recorded) (hdir : info.isDir = false) :
    fs.TellsFile now r := by
  obtain ⟨hexists, hisDir, hlength, hmodified, hentry⟩ := answers_of_get? hopen hget
  rw [hdir] at hisDir
  obtain ⟨i, hi⟩ : ∃ i, info.index = some i := by
    rw [← Option.ne_none_iff_exists']
    intro hnone
    rw [hinfo.isDir_of_index hnone] at hdir
    cases hdir
  have hindex : fs.contentIndex r = .ok i := by
    rw [contentIndex, hentry]
    simp only [bind, Except.bind, hdir, hi]
    rfl
  refine ⟨hexists, hisDir, ⟨_, hlength⟩, hmodified, ?_, ?_, ?_⟩
  · exact fun name hread => nomatch ofContent_of_read hindex hread
  · exact fun name hread => nomatch ofContent_of_read hindex hread
  · rw [list, hentry]
    simp only [bind, Except.bind, hdir]
    rfl

omit hget

/-- An open archive gives the answers for the kind that its index knows, and for no other. -/
theorem tells_iff (hindex : fs.archive.index = Archive.indexOf fs.archive.entries)
    {kind : Archive.Kind} : fs.Tells now r kind ↔ kind = fs.archive.kindOf r.path := by
  have htells : fs.Tells now r (fs.archive.kindOf r.path) := by
    unfold Archive.kindOf
    cases hget : fs.archive.index.get? r.path with
    | none => exact tellsMissing_of_get? hopen hget
    | some info =>
      have hinfo : info.Recorded := Archive.recorded_of_mem hindex _ (Assoc.mem_of_lookup hget)
      cases hdir : info.isDir with
      | true =>
        dsimp only
        rw [hdir, if_pos rfl]
        exact tellsDirectory_of_get? hopen hget hinfo hdir
      | false =>
        dsimp only
        rw [hdir, if_neg Bool.false_ne_true]
        exact tellsFile_of_get? hopen hget hinfo hdir
  exact ⟨fun h => h.unique htells, fun h => h ▸ htells⟩

end

end ArchiveFs

namespace Reading

/-! ## The answers while an archive is read -/

/-- A move changes no more of an archive than its cache, but that it may be closed. -/
lemma exists_step (st : Reading) (move : Move) :
    ∃ cache isOpen, (st.step move).fs = { st.fs with cache, isOpen } ∧
      (isOpen = true ↔ st.fs.isOpen = true ∧ move ≠ .closes) := by
  cases move with
  | reads h r =>
    obtain ⟨cache, hkept⟩ := st.fs.exists_cache_read h r
    exact ⟨cache, st.fs.isOpen, hkept, by simp⟩
  | lingers h r =>
    refine ⟨st.fs.cache, st.fs.isOpen, ?_, by simp⟩
    unfold step
    dsimp only
    split <;> rfl
  | stores n =>
    unfold step
    dsimp only
    split
    · exact ⟨_, st.fs.isOpen, rfl, by simp⟩
    · exact ⟨st.fs.cache, st.fs.isOpen, rfl, by simp⟩
  | drops stays => exact ⟨_, st.fs.isOpen, rfl, by simp⟩
  | closes => exact ⟨_, false, rfl, by simp⟩

/-- So do several moves. -/
lemma exists_run (st : Reading) (moves : List Move) :
    ∃ cache isOpen, (run moves st).fs = { st.fs with cache, isOpen } ∧
      (isOpen = true ↔ st.fs.isOpen = true ∧ .closes ∉ moves) := by
  induction moves generalizing st with
  | nil => exact ⟨st.fs.cache, st.fs.isOpen, rfl, by simp⟩
  | cons move rest ih =>
    obtain ⟨cache, isOpen, hstep, hopen⟩ := st.exists_step move
    obtain ⟨cache', isOpen', hrun, hopen'⟩ := ih (st.step move)
    rw [hstep] at hrun hopen'
    refine ⟨cache', isOpen', hrun, hopen'.trans ?_⟩
    dsimp only
    rw [hopen, List.mem_cons, not_or, and_assoc, ne_comm]

/-- Whatever was read of an archive and whatever has become of the host, an open archive gives the
answers for the kind that the path of a resource had when the archive was opened, and for no other.
A closed one refuses to answer. What the index records without an entry is a directory, so content
that is looked for always has an entry. -/
theorem tells_iff_of_run {fs : ArchiveFs} {h : Host} {root : Url} {path : Path}
    {config : CacheConfig} (hfs : ArchiveFs.openAt h root path config = .ok fs)
    (moves : List Move) (now : Host) (r : ArchiveResource) :
    (.closes ∈ moves →
      (run moves (ofArchive fs)).fs.Refuses now r (.staleMount root.text)) ∧
    (.closes ∉ moves → ∀ kind,
      (run moves (ofArchive fs)).fs.Tells now r kind ↔ kind = fs.archive.kindOf r.path) ∧
    ∀ pair ∈ (run moves (ofArchive fs)).fs.archive.index.entries,
      ¬(pair.2.index = none ∧ pair.2.isDir = false) := by
  obtain ⟨hroot, hfsOpen, -, hindex⟩ := ArchiveFs.eq_of_openAt hfs
  obtain ⟨cache, isOpen, hrun, hopen⟩ := exists_run (ofArchive fs) moves
  rw [hrun]
  refine ⟨fun hcloses => ?_, fun hstays kind => ?_, ?_⟩
  · have hclosed : isOpen = false :=
      Bool.eq_false_iff.mpr fun htrue => (hopen.mp htrue).2 hcloses
    rw [← hroot]
    exact ArchiveFs.refuses_of_closed hclosed
  · have hstill : ({ fs with cache, isOpen } : ArchiveFs).isOpen = true :=
      hopen.mpr ⟨hfsOpen, hstays⟩
    exact ArchiveFs.tells_iff hstill hindex
  · rintro pair hpair ⟨hnone, hfile⟩
    rw [(Archive.recorded_of_mem hindex pair hpair).isDir_of_index hnone] at hfile
    cases hfile

/-! ### A file, the root and nothing -/

/-- What an address leads to in the archive at a path. -/
def kindAt? (host : Host) (root : Url) (path : Path) (uri : Url) : Option Archive.Kind := do
  let fs ← (ArchiveFs.openAt host root path {}).toOption
  let r ← (fs.resource host uri).toOption
  pure (fs.archive.kindOf r.path)

lemma exists_of_kindAt? {host : Host} {root uri : Url} {path : Path} {kind : Archive.Kind}
    (h : kindAt? host root path uri = some kind) :
    ∃ fs r, ArchiveFs.openAt host root path {} = .ok fs ∧ fs.resource host uri = .ok r ∧
      kind = fs.archive.kindOf r.path := by
  obtain ⟨fs, hfs, h⟩ := Option.bind_eq_some_iff.mp h
  obtain ⟨r, hr, h⟩ := Option.bind_eq_some_iff.mp h
  exact ⟨fs, r, eq_ok_of_toOption hfs, eq_ok_of_toOption hr, (Option.some.inj h).symm⟩

/-- The file in the sample archive has been read and dropped, and the archive has been moved away.
The file, the root and what is missing are told apart as before, until the archive is closed under a
slow reader. -/
theorem tells_iff_of_sample :
    ∃ fs r dir gone,
      ArchiveFs.openAt ArchiveFs.sampleHost (ArchiveFs.sampleUri "") ⟨[47, 122]⟩ {} = .ok fs ∧
      fs.resource ArchiveFs.sampleHost (ArchiveFs.sampleUri "a") = .ok r ∧
      fs.resource ArchiveFs.sampleHost (ArchiveFs.sampleUri "") = .ok dir ∧
      fs.resource ArchiveFs.sampleHost (ArchiveFs.sampleUri "a/b") = .ok gone ∧
      (run [.reads ArchiveFs.sampleHost r, .drops fun _ => false]
        (ofArchive fs)).fs.TellsFile unlinkedHost r ∧
      (run [.reads ArchiveFs.sampleHost r, .drops fun _ => false]
        (ofArchive fs)).fs.TellsDirectory unlinkedHost dir ∧
      (run [.reads ArchiveFs.sampleHost r, .drops fun _ => false]
        (ofArchive fs)).fs.TellsMissing unlinkedHost gone ∧
      (run [.lingers ArchiveFs.sampleHost r, .closes, .stores 0]
        (ofArchive fs)).fs.Refuses unlinkedHost r
          (.staleMount (ArchiveFs.sampleUri "").text) := by
  have hfile : kindAt? ArchiveFs.sampleHost (ArchiveFs.sampleUri "") ⟨[47, 122]⟩
      (ArchiveFs.sampleUri "a") = some .file := by decide +kernel
  have hdirectory : kindAt? ArchiveFs.sampleHost (ArchiveFs.sampleUri "") ⟨[47, 122]⟩
      (ArchiveFs.sampleUri "") = some .directory := by decide +kernel
  have hmissing : kindAt? ArchiveFs.sampleHost (ArchiveFs.sampleUri "") ⟨[47, 122]⟩
      (ArchiveFs.sampleUri "a/b") = some .missing := by decide +kernel
  obtain ⟨fs, r, hfs, hr, hfile⟩ := exists_of_kindAt? hfile
  obtain ⟨fs', dir, hfs', hdir, hdirectory⟩ := exists_of_kindAt? hdirectory
  obtain rfl := Except.ok.inj (hfs.symm.trans hfs')
  obtain ⟨fs', gone, hfs', hgone, hmissing⟩ := exists_of_kindAt? hmissing
  obtain rfl := Except.ok.inj (hfs.symm.trans hfs')
  have htells := fun entry => tells_iff_of_run hfs
    [.reads ArchiveFs.sampleHost r, .drops fun _ => false] unlinkedHost entry
  refine ⟨fs, r, dir, gone, hfs, hr, hdir, hgone, ?_, ?_, ?_, ?_⟩
  · exact ((htells r).2.1 (by simp) .file).mpr hfile
  · exact ((htells dir).2.1 (by simp) .directory).mpr hdirectory
  · exact ((htells gone).2.1 (by simp) .missing).mpr hmissing
  · exact (tells_iff_of_run hfs _ unlinkedHost r).1 (by simp)

end Reading

end ContentMounts
