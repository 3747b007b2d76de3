import Mathlib.Tactic.Common
import ContentMounts.Provider.World

/-!
# Archives among the filesystems of a backend

A pool knows filesystems by their numbers. `Archives` says which of them are archives: it finds the
archive with a number and the entry that a resource stands for, and ties the operations of the
backend to those of the archive. The other filesystems may behave in any way.

`Keeps` says that an archive does not lose its place: an open filesystem stays open, under its root
address, and stays an archive if it was one. `Spared` says that the operations of the backend keep a
filesystem, but for those that close it. The providers at work are such a backend
(`World.archives`), and they spare every filesystem (`World.spared`).
-/

namespace ContentMounts

/-- The six questions that a resource answers. -/
structure Questions (σ ρ : Type) where
  pathExists : ρ → σ → Except ResourceError Bool × σ
  isDirectory : ρ → σ → Except ResourceError Bool × σ
  length : ρ → σ → Except ResourceError Nat × σ
  lastModified : ρ → σ → Except ResourceError (Option Moment) × σ
  read : ρ → σ → Except ResourceError Bytes × σ
  list : ρ → σ → Except ResourceError (List Text) × σ

/-- An answer is not the failure of a mount that is gone. -/
def Served {α : Type} (answer : Except ResourceError α) : Prop :=
  ∀ key, answer ≠ .error (.staleMount key)

namespace Questions

variable {σ ρ : Type}

/-- A property of each of the six questions. -/
structure All (Q : Questions σ ρ)
    (P : ∀ {α : Type}, (ρ → σ → Except ResourceError α × σ) → Prop) : Prop where
  pathExists : P Q.pathExists
  isDirectory : P Q.isDirectory
  length : P Q.length
  lastModified : P Q.lastModified
  read : P Q.read
  list : P Q.list

lemma All.imp {Q : Questions σ ρ} {P P' : ∀ {α : Type}, (ρ → σ → Except ResourceError α × σ) → Prop}
    (h : Q.All P) (himp : ∀ {α : Type} (question : ρ → σ → Except ResourceError α × σ),
      P question → P' question) : Q.All P' where
  pathExists := himp _ h.pathExists
  isDirectory := himp _ h.isDirectory
  length := himp _ h.length
  lastModified := himp _ h.lastModified
  read := himp _ h.read
  list := himp _ h.list

end Questions

/-- The archives among the filesystems of a backend. -/
structure Archives {σ ρ : Type} (B : Backend σ ρ) (Q : Questions σ ρ) where
  /-- The archive with a number. -/
  archive? : FileSystemId → σ → Option ArchiveFs
  /-- The entry of an archive that a resource stands for. -/
  entryOf? : ρ → Option (FileSystemId × ArchiveResource)
  isOpen_eq : ∀ {id s fs}, archive? id s = some fs → B.isOpen id s = fs.isOpen
  entryOf?_resource : ∀ {id s fs uri r}, archive? id s = some fs →
    (B.resource id uri s).1 = .ok r → ∃ e, entryOf? r = some (id, e)
  pathExists_eq : ∀ {id s fs r e}, archive? id s = some fs → entryOf? r = some (id, e) →
    (Q.pathExists r s).1 = fs.pathExists e
  isDirectory_eq : ∀ {id s fs r e}, archive? id s = some fs → entryOf? r = some (id, e) →
    (Q.isDirectory r s).1 = fs.isDirectory e
  length_eq : ∀ {id s fs r e}, archive? id s = some fs → entryOf? r = some (id, e) →
    (Q.length r s).1 = fs.length e
  lastModified_eq : ∀ {id s fs r e}, archive? id s = some fs → entryOf? r = some (id, e) →
    (Q.lastModified r s).1 = (fs.lastModified e).map some
  read_eq : ∀ {id s fs r e}, archive? id s = some fs → entryOf? r = some (id, e) →
    (Q.read r s).1 = (fs.read (B.host s) e).1
  list_eq : ∀ {id s fs r e}, archive? id s = some fs → entryOf? r = some (id, e) →
    (Q.list r s).1 = fs.list e

/-! ## Answers of an open archive -/

section Served

variable {α β : Type}

lemma served_ok (a : α) : Served (.ok a) := by
  intro key h
  cases h

lemma served_error {e : ResourceError} (h : e.isStale = false) :
    Served (.error e : Except ResourceError α) := by
  rintro key ⟨⟩
  cases h

/-- What a failure means does not depend on what was asked. -/
lemma Served.of_error {e : ResourceError} (h : Served (.error e : Except ResourceError α)) :
    Served (.error e : Except ResourceError β) := by
  rintro key ⟨⟩
  exact h key rfl

lemma Served.bind {x : Except ResourceError α} {f : α → Except ResourceError β} (hx : Served x)
    (hf : ∀ a, Served (f a)) : Served (x >>= f) := by
  cases x with
  | error e => exact hx.of_error
  | ok a => exact hf a

lemma Served.map {x : Except ResourceError α} (hx : Served x) (f : α → β) : Served (x.map f) := by
  cases x with
  | error e => exact hx.of_error
  | ok a => exact served_ok (f a)

/-- Reading an entry of a file does not find that a mount is gone. -/
lemma StoredEntry.served_read (e : StoredEntry) (file : Bytes) : Served (e.read file) := by
  unfold StoredEntry.read
  simp only [bind, Except.bind, pure, Except.pure, throw, throwThe, MonadExceptOf.throw]
  split_ifs
  · exact served_error rfl
  · exact served_error rfl
  · exact served_error rfl
  · exact served_error rfl
  · exact served_ok _
  · cases Inflate.decompress ((file.drop e.dataStart).take e.compressedSize) with
    | error f => exact served_error rfl
    | ok content =>
      simp only [Except.mapError]
      split_ifs
      · exact served_error rfl
      · exact served_ok _

namespace ArchiveFs

variable {fs : ArchiveFs}

lemma served_ensureOpen (h : fs.isOpen = true) : Served fs.ensureOpen := by
  rw [ensureOpen, if_pos h]
  exact served_ok ()

/-- An open archive answers what is known of an entry. -/
lemma served_entry (h : fs.isOpen = true) (r : ArchiveResource) : Served (fs.entry r) := by
  refine (served_ensureOpen h).bind fun _ => ?_
  cases fs.archive.index.get? r.path with
  | none => exact served_error rfl
  | some info => exact served_ok info

lemma served_pathExists (h : fs.isOpen = true) (r : ArchiveResource) : Served (fs.pathExists r) :=
  (served_ensureOpen h).bind fun _ => served_ok _

lemma served_isDirectory (h : fs.isOpen = true) (r : ArchiveResource) :
    Served (fs.isDirectory r) :=
  (served_ensureOpen h).bind fun _ => served_ok _

lemma served_contentIndex (h : fs.isOpen = true) (r : ArchiveResource) :
    Served (fs.contentIndex r) := by
  refine (served_entry h r).bind fun info => ?_
  dsimp only
  split_ifs
  · exact served_error rfl
  · cases info.index with
    | none => exact served_error rfl
    | some i => exact served_ok i

/-- An open archive answers with content or says what is wrong with it. -/
lemma served_read (h : fs.isOpen = true) (host : Host) (r : ArchiveResource) :
    Served (fs.read host r).1 := by
  have hfile : Served (fs.readFile host r) := by
    refine (served_contentIndex h r).bind fun i => ?_
    unfold Archive.readEntry
    cases fs.archive.entries[i]? with
    | none => exact served_error rfl
    | some e => exact e.served_read _
  have hindex := served_contentIndex h r
  unfold read
  cases hi : fs.contentIndex r with
  | error e =>
    rw [hi] at hindex
    exact hindex.of_error
  | ok i =>
    cases fs.cache.get? r.path with
    | some content => exact served_ok content
    | none =>
      cases hf : fs.readFile host r with
      | error e =>
        rw [hf] at hfile
        exact hfile
      | ok content => exact served_ok content

/-- What an archive is like when it is opened. -/
lemma eq_of_openAt {h : Host} {root : Url} {path : Path} {config : CacheConfig}
    (hfs : openAt h root path config = .ok fs) :
    fs.root = root ∧ fs.isOpen = true ∧ fs.cache.contents = [] ∧
      fs.archive.index = Archive.indexOf fs.archive.entries := by
  obtain ⟨node, -, hfs⟩ := exists_of_bind_eq_ok hfs
  dsimp only at hfs
  split at hfs
  · obtain ⟨file, -, hfs⟩ := exists_of_bind_eq_ok hfs
    split at hfs
    · cases hfs
    · next archive harchive =>
      cases hfs
      obtain ⟨entries, -, rfl⟩ := Option.map_eq_some_iff.mp harchive
      exact ⟨rfl, rfl, rfl, rfl⟩
  · cases hfs

/-- Reading changes nothing of an archive but its cache. -/
lemma exists_cache_read (fs : ArchiveFs) (host : Host) (r : ArchiveResource) :
    ∃ cache, (fs.read host r).2 = { fs with cache } := by
  unfold read
  split
  · exact ⟨_, rfl⟩
  · exact ⟨_, rfl⟩
  · split
    · exact ⟨_, rfl⟩
    · exact ⟨_, rfl⟩

lemma served_list (h : fs.isOpen = true) (r : ArchiveResource) : Served (fs.list r) := by
  refine (served_entry h r).bind fun info => ?_
  dsimp only
  split_ifs
  · exact served_error rfl
  · exact served_ok _

end ArchiveFs

end Served

namespace Archives

variable {σ ρ : Type} {B : Backend σ ρ} {Q : Questions σ ρ}

/-- An entry of an open archive answers all six questions. -/
theorem served (V : Archives B Q) {id : FileSystemId} {s : σ} {fs : ArchiveFs} {r : ρ}
    {e : ArchiveResource} (hfs : V.archive? id s = some fs) (hr : V.entryOf? r = some (id, e))
    (hopen : B.isOpen id s = true) : Q.All fun question => Served (question r s).1 := by
  have h : fs.isOpen = true := by rw [← V.isOpen_eq hfs, hopen]
  refine ⟨?_, ?_, ?_, ?_, ?_, ?_⟩
  · rw [V.pathExists_eq hfs hr]
    exact ArchiveFs.served_pathExists h e
  · rw [V.isDirectory_eq hfs hr]
    exact ArchiveFs.served_isDirectory h e
  · rw [V.length_eq hfs hr]
    exact (ArchiveFs.served_entry h e).map _
  · rw [V.lastModified_eq hfs hr]
    exact ((ArchiveFs.served_entry h e).map _).map _
  · rw [V.read_eq hfs hr]
    exact ArchiveFs.served_read h (B.host s) e
  · rw [V.list_eq hfs hr]
    exact ArchiveFs.served_list h e

/-! ## Filesystems that keep their place -/

/-- A filesystem that is open stays open and what it is. -/
def Keeps (V : Archives B Q) (id : FileSystemId) (s s' : σ) : Prop :=
  B.isOpen id s = true → B.isOpen id s' = true ∧ B.rootUri id s' = B.rootUri id s ∧
    (V.archive? id s').isSome = (V.archive? id s).isSome

variable {V : Archives B Q} {id : FileSystemId}

lemma Keeps.refl (s : σ) : V.Keeps id s s := fun h => ⟨h, rfl, rfl⟩

lemma Keeps.trans {s s' s'' : σ} (h : V.Keeps id s s') (h' : V.Keeps id s' s'') :
    V.Keeps id s s'' := by
  intro hopen
  obtain ⟨hopen', hroot, hkind⟩ := h hopen
  obtain ⟨hopen'', hroot', hkind'⟩ := h' hopen'
  exact ⟨hopen'', hroot'.trans hroot, hkind'.trans hkind⟩

/-- The operations of a backend keep a filesystem, but for closing it. -/
structure Spared (V : Archives B Q) (id : FileSystemId) : Prop where
  openNew : ∀ provider uri s, V.Keeps id s (B.openNew provider uri s).2
  findOpen : ∀ provider uri s, V.Keeps id s (B.findOpen provider uri s).2
  resource : ∀ other uri s, V.Keeps id s (B.resource other uri s).2
  close : ∀ other s, other ≠ id → V.Keeps id s (B.close other s)

end Archives

namespace FileSystem

@[simp] lemma root_close (fs : FileSystem) : fs.close.root = fs.root := by
  cases fs with
  | archive fs => rfl
  | scripted owner fs =>
    obtain ⟨root, state⟩ := fs
    cases state <;> rfl

@[simp] lemma isOpen_close (fs : FileSystem) : fs.close.isOpen = false := by
  cases fs with
  | archive fs => rfl
  | scripted owner fs =>
    obtain ⟨root, state⟩ := fs
    cases state <;> rfl

end FileSystem

/-! ## The providers at work -/

namespace World

/-- The six questions to the resources of the providers at work. -/
def questions : Questions World ProvidedResource where
  pathExists r w := (w.pathExists r, w)
  isDirectory r w := (w.isDirectory r, w)
  length r w := (w.length r, w)
  lastModified r w := (w.lastModified r, w)
  read := read
  list r w := (w.list r, w)

/-- The archive with a number. -/
def archive? (id : FileSystemId) (w : World) : Option ArchiveFs :=
  match w.fileSystem? id with
  | some (.archive fs) => some fs
  | _ => none

/-- The entry of an archive that a resource stands for. -/
def entryOf? : ProvidedResource → Option (FileSystemId × ArchiveResource)
  | .archive id e => some (id, e)
  | .scripted _ => none

lemma archive?_eq_some_iff {id : FileSystemId} {w : World} {fs : ArchiveFs} :
    w.archive? id = some fs ↔ w.fileSystem? id = some (.archive fs) := by
  unfold archive?
  split
  · next h => rw [h, Option.some.injEq, Option.some.injEq, FileSystem.archive.injEq]
  · next h =>
    constructor
    · intro hnone
      cases hnone
    · intro hsome
      exact absurd hsome (h fs)

lemma entryOf?_eq_some_iff {r : ProvidedResource} {id : FileSystemId} {e : ArchiveResource} :
    entryOf? r = some (id, e) ↔ r = .archive id e := by
  cases r with
  | archive id' e' => simp [entryOf?]
  | scripted r => simp [entryOf?]

lemma askArchive_eq {α : Type} {id : FileSystemId} {w : World} {fs : ArchiveFs}
    (h : w.archive? id = some fs) (question : ArchiveFs → Except ResourceError α) :
    w.askArchive id question = question fs := by
  unfold askArchive
  rw [archive?_eq_some_iff.mp h]

lemma resource_eq {id : FileSystemId} {w : World} {fs : ArchiveFs} (h : w.archive? id = some fs)
    (uri : Url) : resource id uri w = (fs.resource w.host uri).map (.archive id) := by
  unfold resource
  rw [archive?_eq_some_iff.mp h]

/-- The archives of the providers at work. -/
def archives : Archives backend questions where
  archive? := archive?
  entryOf? := entryOf?
  isOpen_eq := by
    intro id w fs h
    change (w.fileSystem? id).any FileSystem.isOpen = fs.isOpen
    rw [archive?_eq_some_iff.mp h]
    rfl
  entryOf?_resource := by
    intro id w fs uri r h hr
    have hr : resource id uri w = .ok r := hr
    rw [resource_eq h] at hr
    cases hfs : fs.resource w.host uri with
    | error e =>
      rw [hfs] at hr
      cases hr
    | ok e =>
      rw [hfs] at hr
      exact ⟨e, entryOf?_eq_some_iff.mpr (Except.ok.inj hr).symm⟩
  pathExists_eq := by
    intro id w fs r e h hr
    rw [entryOf?_eq_some_iff.mp hr]
    exact askArchive_eq h _
  isDirectory_eq := by
    intro id w fs r e h hr
    rw [entryOf?_eq_some_iff.mp hr]
    exact askArchive_eq h _
  length_eq := by
    intro id w fs r e h hr
    rw [entryOf?_eq_some_iff.mp hr]
    exact askArchive_eq h _
  lastModified_eq := by
    intro id w fs r e h hr
    rw [entryOf?_eq_some_iff.mp hr]
    exact askArchive_eq h _
  read_eq := by
    intro id w fs r e h hr
    rw [entryOf?_eq_some_iff.mp hr]
    change (read (.archive id e) w).1 = (fs.read w.host e).1
    unfold read
    dsimp only
    rw [archive?_eq_some_iff.mp h]
  list_eq := by
    intro id w fs r e h hr
    rw [entryOf?_eq_some_iff.mp hr]
    exact askArchive_eq h _

/-- A filesystem keeps its place if its number leads to the same filesystem, but for the content
that an archive keeps in its cache. -/
lemma keeps_of_fileSystem? {id : FileSystemId} {w w' : World}
    (h : ∀ fs, w.fileSystem? id = some fs → w'.fileSystem? id = some fs ∨
      ∃ old cache, fs = .archive old ∧ w'.fileSystem? id = some (.archive { old with cache })) :
    archives.Keeps id w w' := by
  intro hopen
  change (w.fileSystem? id).any FileSystem.isOpen = true at hopen
  change (w'.fileSystem? id).any FileSystem.isOpen = true ∧
    ((w'.fileSystem? id).map FileSystem.root).getD noRoot =
      ((w.fileSystem? id).map FileSystem.root).getD noRoot ∧
    (w'.archive? id).isSome = (w.archive? id).isSome
  unfold archive?
  cases hfs : w.fileSystem? id with
  | none =>
    rw [hfs] at hopen
    cases hopen
  | some fs =>
    rw [hfs] at hopen
    rcases h fs hfs with hsame | ⟨old, cache, rfl, hcache⟩
    · rw [hsame]
      exact ⟨hopen, rfl, rfl⟩
    · rw [hcache]
      exact ⟨hopen, rfl, rfl⟩

/-- A request for a new filesystem leaves the others as they are. -/
lemma fileSystem?_openNew {id : FileSystemId} {fs : FileSystem} (provider : ProviderId) (uri : Url)
    {w : World} (h : w.fileSystem? id = some fs) :
    (openNew provider uri w).2.fileSystem? id = some fs := by
  have hadd : ∀ new : FileSystem, (w.fileSystems ++ [new])[id]? = some fs := by
    intro new
    rw [List.getElem?_append_left (List.getElem?_eq_some_iff.mp h).1]
    exact h
  unfold openNew
  split
  · exact h
  · split
    · exact h
    · exact hadd _
  · split
    · exact h
    · exact hadd _

/-- Closing a filesystem leaves the others as they are. -/
lemma fileSystem?_close {id other : FileSystemId} (hne : other ≠ id) (w : World) :
    (close other w).fileSystem? id = w.fileSystem? id := by
  unfold close
  split
  · exact List.getElem?_set_ne hne
  · rfl

/-- The providers at work spare every filesystem. -/
theorem spared (id : FileSystemId) : archives.Spared id where
  openNew provider uri _ :=
    keeps_of_fileSystem? fun _ h => .inl (fileSystem?_openNew provider uri h)
  findOpen _ _ w := Archives.Keeps.refl w
  resource _ _ w := Archives.Keeps.refl w
  close _ w hne := keeps_of_fileSystem? fun _ h => .inl ((fileSystem?_close hne w).trans h)

/-- Reading a resource does not close a filesystem. -/
theorem keeps_read (id : FileSystemId) (r : ProvidedResource) (w : World) :
    archives.Keeps id w (read r w).2 := by
  cases r with
  | scripted r => exact Archives.Keeps.refl w
  | archive other e =>
    unfold read
    dsimp only
    split
    · next old hold =>
      refine keeps_of_fileSystem? fun fs hfs => ?_
      by_cases hne : other = id
      · subst hne
        obtain rfl : .archive old = fs := Option.some.inj (hold.symm.trans hfs)
        have hlt := (List.getElem?_eq_some_iff.mp hfs).1
        obtain ⟨cache, hcache⟩ := old.exists_cache_read w.host e
        refine .inr ⟨old, cache, rfl, ?_⟩
        rw [← hcache]
        exact List.getElem?_set_self hlt
      · exact .inl ((List.getElem?_set_ne hne).trans hfs)
    · exact Archives.Keeps.refl w

end World

end ContentMounts
