import ContentMounts.Proofs.Archive.Cache
import ContentMounts.Proofs.Archive.FirstEntry

/-!
# Announced lengths

The length of an entry is what the directory of the archive announces, and the content is what the
data of the entry expand to. A reader compares the checksum of the content with the announced one
and does not compare its length, so the two lengths agree exactly if the announcement is true
(`length_eq_iff`). That is so however the archive was read in between, and for the first entry that
has the path of the resource; what is announced of later ones with that path is of no account.
-/

namespace ContentMounts

namespace StoredEntry

/-- The number of bytes that the data of an entry expand to, as far as the file holds them. -/
def expandedLength? (e : StoredEntry) (file : Bytes) : Option Nat :=
  let data := (file.drop e.dataStart).take e.compressedSize
  if e.method = 0 then some data.length
  else (Inflate.decompress data).toOption.map List.length

/-- What is read of an entry is what its data expand to. -/
lemma expandedLength?_of_read {e : StoredEntry} {file found : Bytes}
    (h : e.read file = .ok found) : e.expandedLength? file = some found.length := by
  unfold read at h
  simp only [bind, Except.bind, pure, Except.pure, throw, throwThe, MonadExceptOf.throw] at h
  unfold expandedLength?
  split_ifs at h with _ _ _ hstored
  · obtain rfl := Except.ok.inj h
    exact if_pos hstored
  · cases hexpands : Inflate.decompress ((file.drop e.dataStart).take e.compressedSize) with
    | error f =>
      rw [hexpands] at h
      cases h
    | ok content =>
      rw [hexpands] at h
      simp only [Except.mapError] at h
      split_ifs at h
      obtain rfl := Except.ok.inj h
      simp only [if_neg hstored, hexpands, Except.toOption, Option.map_some]

end StoredEntry

namespace Archive

variable {a : Archive}

/-- The content of a resource is that of the first entry at its path. Where there is none, nothing
can be read. -/
lemma content_eq_first? (ha : a.index = indexOf a.entries) (bytes : Bytes) (r : ArchiveResource) :
    match first? a.entries (EntryPath.normalize r.path) with
    | some e => a.content bytes r =
        if e.isDir then .error (.isADirectory r.name) else e.read bytes
    | none => a.content bytes r = .error (.notFound r.name) ∨
        a.content bytes r = .error (.isADirectory r.name) := by
  have hknown := get?_indexOf a.entries r.path
  rw [← ha] at hknown
  unfold content
  cases hfirst : first? a.entries (EntryPath.normalize r.path) with
  | some e =>
    rw [hfirst] at hknown
    obtain ⟨i, hi, hget⟩ := hknown
    rw [hget]
    simp only [EntryInfo.ofEntry, readEntry, hi]
  | none =>
    rw [hfirst] at hknown
    rcases hknown with hnone | hmade
    · rw [hnone]
      exact .inl rfl
    · rw [hmade]
      exact .inr rfl

/-- A resource that has content has that of the first entry whose name has its path. That entry is
not a directory, and its size is what the index announces. -/
lemma exists_of_content (ha : a.index = indexOf a.entries) {bytes found : Bytes}
    {r : ArchiveResource} (h : a.content bytes r = .ok found) :
    ∃ e info, a.entries.find?
        (fun e => EntryPath.normalize e.name == EntryPath.normalize r.path) = some e ∧
      e.isDir = false ∧ a.index.get? r.path = some info ∧ info.size = e.size ∧
      e.read bytes = .ok found := by
  have hknown := get?_indexOf a.entries r.path
  have hcontent := content_eq_first? ha bytes r
  rw [← ha] at hknown
  rw [h] at hcontent
  cases hfirst : first? a.entries (EntryPath.normalize r.path) with
  | some e =>
    rw [hfirst] at hknown hcontent
    obtain ⟨i, -, hget⟩ := hknown
    dsimp only at hcontent
    split at hcontent
    · cases hcontent
    · next hdir =>
      replace hfirst := (Option.ite_none_left_eq_some.mp hfirst).2
      refine ⟨e, _, hfirst, Bool.eq_false_iff.mpr hdir, hget, ?_, hcontent.symm⟩
      exact if_neg hdir
  | none =>
    rw [hfirst] at hcontent
    rcases hcontent with hcontent | hcontent <;> cases hcontent

end Archive

namespace Reading

variable {fs : ArchiveFs}

/-- Let the length of a resource be asked and its content be read while the bytes of the file are
those that the archive was opened with, whatever others read before the one and before the other.
The length is what the archive announces of the first entry whose name has the path of the resource,
and the content is what that entry expands to. So there are as many bytes as the length says exactly
if the size of the entry is announced as it is. -/
theorem length_eq_iff {h : Host} {root : Url} {path : Path} {config : CacheConfig}
    (hfs : ArchiveFs.openAt h root path config = .ok fs) {asked answered : List Move}
    (hasked : ∀ move ∈ asked, move.Finds fs (fs.container h))
    (hanswered : ∀ move ∈ answered, move.Finds fs (fs.container h)) {now : Host}
    (hnow : fs.container now = fs.container h) {r : ArchiveResource} {n : Nat} {found : Bytes}
    (hn : (run asked (ofArchive fs)).fs.length r = .ok n)
    (hfound : ((run answered (ofArchive fs)).fs.read now r).1 = .ok found) :
    ∃ e, fs.archive.entries.find?
        (fun e => EntryPath.normalize e.name == EntryPath.normalize r.path) = some e ∧
      e.isDir = false ∧ n = e.size ∧ e.read (fs.container h) = .ok found ∧
      (found.length = n ↔ e.expandedLength? (fs.container h) = some e.size) := by
  obtain ⟨-, hopened, -, hindex⟩ := ArchiveFs.eq_of_openAt hfs
  obtain ⟨haskedSound, -⟩ := (sound_ofArchive hfs (fs.container h)).run hasked
  obtain ⟨hsound, hopen⟩ := (sound_ofArchive hfs (fs.container h)).run hanswered
  have hcontent : fs.archive.content (fs.container h) r = .ok found := by
    rw [(hsound.read hnow r).1] at hfound
    cases hstill : (run answered (ofArchive fs)).fs.isOpen with
    | false =>
      rw [(ArchiveFs.read_of_closed hstill now r).2] at hfound
      cases hfound
    | true =>
      rwa [ArchiveFs.readFile_of_isOpen hstill, hsound.container_eq, hsound.archive_eq,
        hnow] at hfound
  obtain ⟨e, info, hfirst, hdir, hinfo, hsize, hread⟩ := Archive.exists_of_content hindex hcontent
  have hlength : n = e.size := by
    obtain ⟨known, hknown, rfl⟩ := exists_of_map_eq_ok hn
    obtain ⟨-, -, hknown⟩ := exists_of_bind_eq_ok hknown
    rw [haskedSound.archive_eq, hinfo] at hknown
    obtain rfl := Except.ok.inj hknown
    exact hsize
  refine ⟨e, hfirst, hdir, hlength, hread, ?_⟩
  rw [StoredEntry.expandedLength?_of_read hread, hlength, Option.some_inj]

/-! ### An announcement that is true and one that is not -/

/-- An archive with one entry, the single byte `x`, which is announced to have the given size. -/
def announcing (size : UInt8) : Bytes :=
  [0x50, 0x4B, 3, 4] ++ List.replicate 10 0 ++
  [0x83, 0x16, 0xDC, 0x8C, 1, 0, 0, 0, size, 0, 0, 0, 1, 0, 0, 0, 97, 120] ++
  [0x50, 0x4B, 1, 2] ++ List.replicate 12 0 ++
  [0x83, 0x16, 0xDC, 0x8C, 1, 0, 0, 0, size, 0, 0, 0, 1, 0] ++ List.replicate 16 0 ++ [97] ++
  [0x50, 0x4B, 5, 6, 0, 0, 0, 0, 1, 0, 1, 0, 47, 0, 0, 0, 32, 0, 0, 0, 0, 0]

/-- A host whose only file is that archive, at `/z`. -/
def announcingHost (size : UInt8) : Host :=
  ⟨.tick 0, [([122], .file 0)], [⟨announcing size, .tick 0⟩], 1, []⟩

/-- The length and the content of that entry, the content as a second reader finds it. -/
def announced? (size : UInt8) : Option (Nat × Bytes) := do
  let host := announcingHost size
  let fs ← (ArchiveFs.openAt host (ArchiveFs.sampleUri "") ⟨[47, 122]⟩ {}).toOption
  let r ← (fs.resource host (ArchiveFs.sampleUri "a")).toOption
  let n ← (fs.length r).toOption
  let found ← ((run [.reads host r] (ofArchive fs)).fs.read host r).1.toOption
  pure (n, found)

lemma exists_of_announced? {size : UInt8} {n : Nat} {found : Bytes}
    (h : announced? size = some (n, found)) :
    ∃ fs r, ArchiveFs.openAt (announcingHost size) (ArchiveFs.sampleUri "") ⟨[47, 122]⟩ {} =
        .ok fs ∧
      fs.resource (announcingHost size) (ArchiveFs.sampleUri "a") = .ok r ∧
      fs.length r = .ok n ∧
      ((run [.reads (announcingHost size) r] (ofArchive fs)).fs.read (announcingHost size) r).1 =
        .ok found := by
  obtain ⟨fs, hfs, h⟩ := Option.bind_eq_some_iff.mp h
  obtain ⟨r, hr, h⟩ := Option.bind_eq_some_iff.mp h
  obtain ⟨n', hn, h⟩ := Option.bind_eq_some_iff.mp h
  obtain ⟨found', hfound, h⟩ := Option.bind_eq_some_iff.mp h
  cases h
  exact ⟨fs, r, eq_ok_of_toOption hfs, eq_ok_of_toOption hr, eq_ok_of_toOption hn,
    eq_ok_of_toOption hfound⟩

/-- The length is one byte, and so is the content, since the size is announced as it is. -/
theorem length_eq_of_announcing :
    ∃ fs r e, ArchiveFs.openAt (announcingHost 1) (ArchiveFs.sampleUri "") ⟨[47, 122]⟩ {} =
        .ok fs ∧
      fs.resource (announcingHost 1) (ArchiveFs.sampleUri "a") = .ok r ∧
      fs.length r = .ok 1 ∧
      ((run [.reads (announcingHost 1) r] (ofArchive fs)).fs.read (announcingHost 1) r).1 =
        .ok [120] ∧
      e ∈ fs.archive.entries ∧ e.size = 1 ∧
      e.expandedLength? (fs.container (announcingHost 1)) = some e.size := by
  have hanswers : announced? 1 = some (1, [120]) := by decide +kernel
  obtain ⟨fs, r, hfs, hr, hn, hfound⟩ := exists_of_announced? hanswers
  have hasked : ∀ move ∈ ([] : List Move), move.Finds fs (fs.container (announcingHost 1)) := by
    simp
  obtain ⟨e, hfirst, -, hsize, -, hiff⟩ :=
    length_eq_iff hfs hasked (by simp [Move.Finds]) rfl hn hfound
  exact ⟨fs, r, e, hfs, hr, hn, hfound, List.mem_of_find?_eq_some hfirst, hsize.symm, hiff.mp rfl⟩

/-- A size that is announced too large is the length of the entry all the same, and the entry can be
read: the length is five bytes, and the content is one. -/
theorem length_ne_of_announcing :
    ∃ fs r n found,
      ArchiveFs.openAt (announcingHost 5) (ArchiveFs.sampleUri "") ⟨[47, 122]⟩ {} = .ok fs ∧
      fs.resource (announcingHost 5) (ArchiveFs.sampleUri "a") = .ok r ∧
      fs.length r = .ok n ∧ n = 5 ∧
      ((run [.reads (announcingHost 5) r] (ofArchive fs)).fs.read (announcingHost 5) r).1 =
        .ok found ∧ found = [120] ∧ found.length ≠ n := by
  have hanswers : announced? 5 = some (5, [120]) := by decide +kernel
  obtain ⟨fs, r, hfs, hr, hn, hfound⟩ := exists_of_announced? hanswers
  exact ⟨fs, r, 5, [120], hfs, hr, hn, rfl, hfound, rfl, by decide⟩

end Reading

end ContentMounts
