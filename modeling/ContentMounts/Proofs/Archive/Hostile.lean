import ContentMounts.Proofs.Archive.Length
import ContentMounts.Proofs.Text.Positions

/-!
# Hostile archives

Whoever makes an archive is free to announce any names, kinds and sizes in it. Names are cut at the
position of a byte, so they might be cut inside a character; the way up from a path reads each path
above anew, so it might not end; and the announced size of an entry is how much memory is asked for
before the entry is read.

The first two do no harm. The cuts are always possible, and what they give are the path above and
the last segment (`EntryPath.parentCut?_eq`, `EntryPath.filenameCut?_eq`). An index is made by steps
that end whatever is inserted, and always with the same index (`EntryIndex.indexes_iff`).

The third one does. Whoever asks for more memory than there can be is brought down instead of being
answered. A reader is, exactly if the archive is open, the content is not kept, and the first entry
at the path is a file that can be read and announces too large a size
(`ArchiveFs.overflows_read_iff`). No other question brings anyone down.
-/

namespace ContentMounts

/-! ## Cuts -/

namespace EntryPath

/-- The byte of a slash. -/
def slashByte : UInt8 := UInt8.ofNat '/'.toNat

/-- The path above the normal form of a path, cut at the byte of the last slash. There is none if no
character starts there. -/
def parentCut? (path : Text) : Option Text :=
  match Text.lastByte? slashByte (Utf8.encode (normalize path)) with
  | some (pos + 1) => (Text.splitAt? (normalize path) (pos + 1)).map (·.1)
  | _ => some root

/-- The last segment of a path, cut behind the byte of the last slash. There is none if no character
ends there. -/
def filenameCut? (path : Text) : Option Text :=
  let t := Text.dropEndWhile (· == '/') (Text.trim path)
  match Text.lastByte? slashByte (Utf8.encode t) with
  | some pos => (Text.splitAt? t (pos + 1)).map (·.2)
  | none => some t

end EntryPath

/-! ## Indexing -/

namespace EntryIndex

/-- The way up from a path as it goes along, with no bound on its steps. Each step cuts the path, and
there is no step where that is not possible. -/
inductive Climbs : EntryIndex → Text → EntryIndex → Prop
  /-- The directory above is known. -/
  | ends {ix : EntryIndex} {child dir name : Text} :
      EntryPath.parentCut? child = some dir → EntryPath.filenameCut? child = some name →
      ((ix.addName dir name).info? dir).isSome = true → Climbs ix child (ix.addName dir name)
  /-- The directory above is made up. -/
  | goes {ix later : EntryIndex} {child dir name : Text} :
      EntryPath.parentCut? child = some dir → EntryPath.filenameCut? child = some name →
      ((ix.addName dir name).info? dir).isSome = false →
      Climbs ((ix.addName dir name).record dir EntryInfo.directory) dir later → Climbs ix child later

variable {ix later : EntryIndex}

/-- There is one way up at most. -/
lemma Climbs.unique {child : Text} {other : EntryIndex} (h : Climbs ix child later)
    (hother : Climbs ix child other) : later = other := by
  induction h with
  | ends hdir hname hknown =>
    cases hother with
    | ends hdir' hname' _ =>
      obtain rfl := Option.some.inj (hdir.symm.trans hdir')
      obtain rfl := Option.some.inj (hname.symm.trans hname')
      rfl
    | goes hdir' hname' hnew _ =>
      obtain rfl := Option.some.inj (hdir.symm.trans hdir')
      obtain rfl := Option.some.inj (hname.symm.trans hname')
      rw [hknown] at hnew
      cases hnew
  | goes hdir hname hnew _ ih =>
    cases hother with
    | ends hdir' hname' hknown =>
      obtain rfl := Option.some.inj (hdir.symm.trans hdir')
      obtain rfl := Option.some.inj (hname.symm.trans hname')
      rw [hknown] at hnew
      cases hnew
    | goes hdir' hname' _ hlater =>
      obtain rfl := Option.some.inj (hdir.symm.trans hdir')
      obtain rfl := Option.some.inj (hname.symm.trans hname')
      exact ih hlater

end EntryIndex

/-! ## Memory -/

/-- There is no answer: more memory is asked for than there can be. -/
def Overflows {α : Type} (answer : Except ResourceError α) : Prop :=
  ∃ bytes, answer = .error (.capacity bytes)

section

variable {α β : Type}

lemma not_overflows_ok (a : α) : ¬Overflows (.ok a : Except ResourceError α) := by
  rintro ⟨_, h⟩
  cases h

lemma not_overflows_error {e : ResourceError} (he : ∀ bytes, e ≠ .capacity bytes) :
    ¬Overflows (.error e : Except ResourceError α) := by
  rintro ⟨bytes, h⟩
  exact he bytes (Except.error.inj h)

lemma not_overflows_bind {x : Except ResourceError α} {f : α → Except ResourceError β}
    (hx : ¬Overflows x) (hf : ∀ a, ¬Overflows (f a)) : ¬Overflows (x >>= f) := by
  rintro ⟨bytes, h⟩
  cases x with
  | ok a => exact hf a ⟨bytes, h⟩
  | error e => exact hx ⟨bytes, congrArg Except.error (Except.error.inj h)⟩

end

namespace StoredEntry

/-- The data of an entry are stored or compressed in a way that can be read. -/
structure Readable (e : StoredEntry) : Prop where
  encrypted_eq : e.encrypted = false
  method_mem : e.method ∈ [0, 8]
  sealed_eq : e.sealed = false

/-- The announced size of an entry that can be read is asked for before the entry is read. -/
lemma overflows_read_iff (e : StoredEntry) (file : Bytes) :
    Overflows (e.read file) ↔ e.Readable ∧ capacityLimit < e.size := by
  unfold read
  by_cases hmethod : e.encrypted = true ∨ e.method ∉ [0, 8]
  · rw [if_pos hmethod]
    refine iff_of_false (not_overflows_error nofun) fun h => ?_
    rcases hmethod with hencrypted | hmethod
    · exact Bool.false_ne_true (h.1.encrypted_eq.symm.trans hencrypted)
    · exact hmethod h.1.method_mem
  rw [if_neg hmethod]
  by_cases hsealed : e.sealed = true
  · rw [if_pos hsealed]
    exact iff_of_false (not_overflows_error nofun) fun h =>
      Bool.false_ne_true (h.1.sealed_eq.symm.trans hsealed)
  rw [if_neg hsealed]
  rw [not_or, not_not, Bool.not_eq_true] at hmethod
  rw [Bool.not_eq_true] at hsealed
  by_cases hsize : e.size > capacityLimit
  · rw [if_pos hsize]
    exact iff_of_true ⟨e.size, rfl⟩ ⟨⟨hmethod.1, hmethod.2, hsealed⟩, hsize⟩
  · rw [if_neg hsize]
    refine iff_of_false ?_ fun h => hsize h.2
    have hchecked : ∀ content : Bytes, ¬Overflows (if Crc32.checksum content ≠ e.checksum then
        .error (.io .invalidData) else .ok content : Except ResourceError Bytes) := by
      intro content
      split
      · exact not_overflows_error nofun
      · exact not_overflows_ok _
    dsimp only
    split
    · exact hchecked _
    · refine not_overflows_bind ?_ hchecked
      cases Inflate.decompress ((file.drop e.dataStart).take e.compressedSize) with
      | ok content => exact not_overflows_ok _
      | error f => exact not_overflows_error nofun

end StoredEntry

namespace Archive

variable {a : Archive}

/-- The content of a resource takes too much memory exactly if the first entry at its path does. -/
lemma overflows_content_iff (ha : a.index = indexOf a.entries) (bytes : Bytes)
    (r : ArchiveResource) :
    Overflows (a.content bytes r) ↔
      ∃ e, first? a.entries (EntryPath.normalize r.path) = some e ∧ e.isDir = false ∧
        e.Readable ∧ StoredEntry.capacityLimit < e.size := by
  have hcontent := content_eq_first? ha bytes r
  cases hfirst : first? a.entries (EntryPath.normalize r.path) with
  | some e =>
    rw [hfirst] at hcontent
    dsimp only at hcontent
    rw [hcontent]
    by_cases hdir : e.isDir = true
    · rw [if_pos hdir]
      refine iff_of_false (not_overflows_error nofun) ?_
      rintro ⟨_, ⟨⟩, hfile, -⟩
      exact Bool.false_ne_true (hfile.symm.trans hdir)
    · rw [if_neg hdir, e.overflows_read_iff]
      rw [Bool.not_eq_true] at hdir
      constructor
      · exact fun h => ⟨e, rfl, hdir, h⟩
      · rintro ⟨_, ⟨⟩, -, h⟩
        exact h
  | none =>
    rw [hfirst] at hcontent
    refine iff_of_false ?_ nofun
    rcases hcontent with hcontent | hcontent
    · rw [hcontent]
      exact not_overflows_error nofun
    · rw [hcontent]
      exact not_overflows_error nofun

end Archive

namespace ArchiveFs

variable (fs : ArchiveFs) (r : ArchiveResource)

lemma not_overflows_ensureOpen : ¬Overflows fs.ensureOpen := by
  unfold ensureOpen
  split
  · exact not_overflows_ok _
  · exact not_overflows_error nofun

lemma not_overflows_entry : ¬Overflows (fs.entry r) := by
  refine not_overflows_bind fs.not_overflows_ensureOpen fun _ => ?_
  split
  · exact not_overflows_ok _
  · exact not_overflows_error nofun

lemma not_overflows_contentIndex : ¬Overflows (fs.contentIndex r) := by
  refine not_overflows_bind (fs.not_overflows_entry r) fun info => ?_
  by_cases hdir : info.isDir = true
  · rw [if_pos hdir]
    exact not_overflows_error nofun
  · rw [if_neg hdir]
    cases info.index with
    | some i => exact not_overflows_ok i
    | none => exact not_overflows_error nofun

variable {fs} {r}

/-- A read asks for too much memory exactly if the archive is open, nothing is kept for the resource
and the first entry at its path is a file that can be read and announces too large a size. -/
theorem overflows_read_iff (hindex : fs.archive.index = Archive.indexOf fs.archive.entries)
    (h : Host) :
    Overflows (fs.read h r).1 ↔
      fs.isOpen = true ∧ fs.cache.get? r.path = none ∧
        ∃ e, Archive.first? fs.archive.entries (EntryPath.normalize r.path) = some e ∧
          e.isDir = false ∧ e.Readable ∧ StoredEntry.capacityLimit < e.size := by
  rw [← Archive.overflows_content_iff hindex (fs.container h) r]
  by_cases hopen : fs.isOpen = true
  · rw [← readFile_of_isOpen hopen h r]
    unfold read
    cases hi : fs.contentIndex r with
    | error e =>
      have he : ∀ bytes, e ≠ .capacity bytes := fun bytes heq =>
        fs.not_overflows_contentIndex r ⟨bytes, heq ▸ hi⟩
      rw [readFile, hi]
      exact iff_of_false (not_overflows_error he) fun hread => not_overflows_error he hread.2.2
    | ok i =>
      cases fs.cache.get? r.path with
      | some kept =>
        refine iff_of_false (not_overflows_ok kept) fun hread => ?_
        cases hread.2.1
      | none =>
        cases fs.readFile h r with
        | ok content =>
          exact iff_of_false (not_overflows_ok content) fun hread =>
            not_overflows_ok content hread.2.2
        | error e => exact ⟨fun hread => ⟨hopen, rfl, hread⟩, fun hread => hread.2.2⟩
  · rw [(read_of_closed (Bool.not_eq_true _ ▸ hopen) h r).1]
    refine iff_of_false (not_overflows_error ?_) fun hread => hopen hread.1
    rintro _ ⟨⟩

end ArchiveFs

end ContentMounts
