import ContentMounts.Proofs.Archive.Spelling
import ContentMounts.Proofs.Provider.Custody

/-!
# One open archive for each root

The provider for archives remembers what it has opened without keeping it alive, and learns neither
that an archive was closed nor that nobody refers to it any more. What it remembers is therefore
right only for the archives that *serve*, which are those that are open and referred to: of these it
remembers every one under its root address (`Remembers`), while anything may be left of the others
until a request for a new archive clears it away.

`World.dealAll` carries out what users may do with a provider and its archives, in any order and
with any changes of the host's files in between. Behind it, no two archives that serve have the same
root address, and the provider answers by the one that has it (`one_open_archive_per_root`).
-/

namespace ContentMounts

/-- What is done with a provider for archives, with an archive that it has opened, or with the files
of the host. -/
inductive Dealing where
  /-- A request for a new archive. -/
  | openNew (uri : Url)
  /-- A request for an archive that is open already. -/
  | findOpen (uri : Url)
  | close (archive : FileSystemId)
  /-- The last reference on an archive is dropped. -/
  | forget (archive : FileSystemId)
  /-- The files of the host are others from now on. -/
  | change (host : Host)

/-! ## Remembered archives -/

/-- Pairs that a look-up finds are found among fewer pairs, if they are still there. -/
lemma lookup_filter_of_lookup {α β : Type} [BEq α] [LawfulBEq α] {keep : α × β → Bool} {key : α}
    {value : β} {m : List (α × β)} (h : m.lookup key = some value)
    (hkeep : keep (key, value) = true) : (m.filter keep).lookup key = some value := by
  induction m with
  | nil => cases h
  | cons pair rest ih =>
    obtain ⟨k, v⟩ := pair
    rw [List.lookup_cons] at h
    by_cases hk : key = k
    · subst hk
      rw [beq_self_eq_true] at h
      obtain rfl := Option.some.inj h
      rw [List.filter_cons_of_pos hkeep, List.lookup_cons, beq_self_eq_true]
    · have hne : (key == k) = false := by simpa using hk
      rw [hne] at h
      rw [List.filter_cons]
      split
      · rw [List.lookup_cons, hne]
        exact ih h
      · exact ih h

namespace ArchiveProvider

/-- A provider remembers the archives that serve, each under its root address, and nothing under an
address that is not its root. -/
structure Remembers (p : ArchiveProvider) (serves : FileSystemId → Bool)
    (rootOf : FileSystemId → Option Url) : Prop where
  rooted : ∀ {root id}, (root, id) ∈ p.held → rootOf id = some root
  serving : ∀ {root id}, serves id = true → rootOf id = some root → p.held.lookup root = some id

variable {p : ArchiveProvider} {serves : FileSystemId → Bool}
  {rootOf : FileSystemId → Option Url}

/-- What is remembered under an address, and serves, is what serves and has that root. -/
lemma Remembers.lookup_iff (h : p.Remembers serves rootOf) {root : Url} {id : FileSystemId} :
    p.held.lookup root = some id ∧ serves id = true ↔
      serves id = true ∧ rootOf id = some root :=
  ⟨fun ⟨hlook, hserves⟩ => ⟨hserves, h.rooted (Assoc.mem_of_lookup hlook)⟩,
    fun ⟨hserves, hroot⟩ => ⟨h.serving hserves hroot, hserves⟩⟩

/-- What is left once the rest is cleared away serves. -/
lemma Remembers.lookup_prune_iff (h : p.Remembers serves rootOf) {root : Url}
    {id : FileSystemId} :
    (p.prune serves).held.lookup root = some id ↔
      serves id = true ∧ rootOf id = some root := by
  constructor
  · intro hlook
    obtain ⟨hmem, hserves⟩ := List.mem_filter.mp (Assoc.mem_of_lookup hlook)
    exact ⟨hserves, h.rooted hmem⟩
  · rintro ⟨hserves, hroot⟩
    exact lookup_filter_of_lookup (h.serving hserves hroot) hserves

lemma Remembers.prune (h : p.Remembers serves rootOf) :
    (p.prune serves).Remembers serves rootOf where
  rooted hmem := h.rooted (List.mem_filter.mp hmem).1
  serving hserves hroot := h.lookup_prune_iff.mpr ⟨hserves, hroot⟩

/-- Fewer archives serve. -/
lemma Remembers.of_fewer {serves' : FileSystemId → Bool} {rootOf' : FileSystemId → Option Url}
    (h : p.Remembers serves rootOf) (hserves : ∀ id, serves' id = true → serves id = true)
    (hroot : ∀ id, rootOf' id = rootOf id) : p.Remembers serves' rootOf' where
  rooted hmem := (hroot _).trans (h.rooted hmem)
  serving hid hr := h.serving (hserves _ hid) ((hroot _).symm.trans hr)

/-- An archive is opened at a root that no archive that serves has. -/
lemma Remembers.open {serves' : FileSystemId → Bool} {rootOf' : FileSystemId → Option Url}
    (h : p.Remembers serves rootOf) {root : Url} {fresh : FileSystemId}
    (hfree : (p.prune serves).held.lookup root = none) (hnew : rootOf' fresh = some root)
    (hold : ∀ id, id ≠ fresh → rootOf' id = rootOf id ∧ (serves' id = true → serves id = true))
    (hfresh : rootOf fresh = none) :
    ArchiveProvider.Remembers { p.prune serves with held := (root, fresh) :: (p.prune serves).held }
      serves' rootOf' where
  rooted := by
    intro other id hmem
    rcases List.mem_cons.mp hmem with heq | hrest
    · obtain ⟨rfl, rfl⟩ := Prod.mk.inj heq
      exact hnew
    · have hother := h.prune.rooted hrest
      have hne : id ≠ fresh := by
        rintro rfl
        rw [hfresh] at hother
        cases hother
      rw [(hold id hne).1, hother]
  serving := by
    intro other id hserves hroot
    rw [List.lookup_cons]
    by_cases hid : id = fresh
    · subst hid
      obtain rfl := Option.some.inj (hnew.symm.trans hroot)
      rw [beq_self_eq_true]
    · obtain ⟨hsame, hserved⟩ := hold id hid
      have hlook := h.lookup_prune_iff.mpr ⟨hserved hserves, hsame.symm.trans hroot⟩
      have hne : other ≠ root := by
        rintro rfl
        rw [hlook] at hfree
        cases hfree
      rw [beq_eq_false_iff_ne.mpr hne]
      exact hlook

/-! ## What a provider answers -/

lemma prune_prune (p : ArchiveProvider) (serves : FileSystemId → Bool) :
    (p.prune serves).prune serves = p.prune serves := by
  unfold ArchiveProvider.prune
  rw [List.filter_filter]
  simp

/-- The failure to open an archive does not say that there is one. -/
lemma openAt_ne_alreadyExists (h : Host) (root : Url) (path : Path) (cache : CacheConfig) :
    ArchiveFs.openAt h root path cache ≠ .error .alreadyExists := by
  intro herror
  unfold ArchiveFs.openAt at herror
  cases hstat : h.stat path with
  | error e =>
    rw [hstat] at herror
    cases herror
  | ok node =>
    rw [hstat] at herror
    cases node with
    | file id =>
      simp only [Except.mapError, bind, Except.bind, pure, Except.pure] at herror
      split at herror
      · cases herror
      · cases herror
    | link target => cases herror
    | dir modified es => cases herror

/-- What a request for a new archive leads to once the root address is found. -/
lemma openNew_of_root (p : ArchiveProvider) (serves : FileSystemId → Bool) {h : Host}
    (fresh : FileSystemId) {uri root : Url} {path : Path}
    (hroot : Archive.root h uri = .ok (root, path)) :
    (∃ id, (p.prune serves).held.lookup root = some id ∧
        p.openNew serves h fresh uri = (.error .alreadyExists, p.prune serves)) ∨
      (p.prune serves).held.lookup root = none ∧
        ((∃ e, ArchiveFs.openAt h root path p.cache = .error e ∧
            p.openNew serves h fresh uri = (.error e, p.prune serves)) ∨
          ∃ fs, ArchiveFs.openAt h root path p.cache = .ok fs ∧
            p.openNew serves h fresh uri =
              (.ok fs,
                { p.prune serves with held := (root, fresh) :: (p.prune serves).held })) := by
  unfold openNew
  rw [hroot]
  dsimp only
  cases hlook : (p.prune serves).held.lookup root with
  | some id => exact .inl ⟨id, rfl, rfl⟩
  | none =>
    refine .inr ⟨rfl, ?_⟩
    have hcache : (p.prune serves).cache = p.cache := rfl
    rw [hcache]
    cases hfs : ArchiveFs.openAt h root path p.cache with
    | error e => exact .inl ⟨e, rfl, rfl⟩
    | ok fs => exact .inr ⟨fs, rfl, rfl⟩

/-- A failed request for a new archive clears away no more than what does not serve. -/
lemma openNew_error {h : Host} {fresh : FileSystemId} {uri : Url} {e : ProviderError}
    (he : (p.openNew serves h fresh uri).1 = .error e) :
    (p.openNew serves h fresh uri).2 = p ∨
      (p.openNew serves h fresh uri).2 = p.prune serves := by
  cases hroot : Archive.root h uri with
  | error cause =>
    left
    unfold openNew
    rw [hroot]
  | ok found =>
    obtain ⟨root, path⟩ := found
    right
    rcases openNew_of_root p serves fresh hroot with
      ⟨id, -, hopen⟩ | ⟨-, ⟨cause, -, hopen⟩ | ⟨fs, -, hopen⟩⟩
    · rw [hopen]
    · rw [hopen]
    · rw [hopen] at he
      cases he

/-- Clearing away does not change the answer to a request for a new archive. -/
lemma openNew_prune (h : Host) (fresh : FileSystemId) (uri : Url) :
    ((p.prune serves).openNew serves h fresh uri).1 = (p.openNew serves h fresh uri).1 := by
  have hcache : (p.prune serves).cache = p.cache := rfl
  unfold openNew
  rw [prune_prune]
  cases Archive.root h uri with
  | error e => rfl
  | ok found => rfl

/-- Nor does it change the answer to a request for an archive that is open. -/
lemma Remembers.findOpen_prune (hp : p.Remembers serves rootOf) (h : Host) (uri : Url) :
    (p.prune serves).findOpen serves h uri = p.findOpen serves h uri := by
  unfold findOpen
  cases Archive.root h uri with
  | error e => rfl
  | ok found =>
    obtain ⟨root, path⟩ := found
    simp only [bind, Except.bind]
    cases hlook : p.held.lookup root with
    | none =>
      cases hpruned : (p.prune serves).held.lookup root with
      | none => rfl
      | some id =>
        have hfound := hp.lookup_iff.mpr (hp.lookup_prune_iff.mp hpruned)
        rw [hlook] at hfound
        cases hfound.1
    | some id =>
      cases hserves : serves id with
      | true =>
        rw [hp.lookup_prune_iff.mpr (hp.lookup_iff.mp ⟨hlook, hserves⟩)]
      | false =>
        cases hpruned : (p.prune serves).held.lookup root with
        | none => simp [hserves]
        | some other =>
          have hfound := hp.lookup_iff.mpr (hp.lookup_prune_iff.mp hpruned)
          obtain rfl := Option.some.inj (hlook.symm.trans hfound.1)
          rfl

/-- The answer to a request for an archive that is open. -/
lemma Remembers.findOpen_eq (hp : p.Remembers serves rootOf) {h : Host} {uri root : Url}
    {path : Path} (hroot : Archive.root h uri = .ok (root, path)) :
    (∀ id, serves id = true → rootOf id = some root → p.findOpen serves h uri = .ok id) ∧
      ((∀ id, serves id = true → rootOf id ≠ some root) →
        p.findOpen serves h uri = .error .notFound) := by
  unfold findOpen
  rw [hroot]
  simp only [bind, Except.bind]
  constructor
  · intro id hserves hid
    rw [hp.serving hserves hid]
    dsimp only
    rw [hserves, if_pos rfl]
    rfl
  · intro hnone
    cases hlook : p.held.lookup root with
    | none => rfl
    | some id =>
      dsimp only
      rw [if_neg fun hserves => hnone id hserves (hp.lookup_iff.mp ⟨hlook, hserves⟩).2]
      rfl

end ArchiveProvider

namespace World

/-! ## A provider at work alone -/

/-- A provider for archives that has opened nothing yet, the only one at work on a host. -/
def ofArchives (h : Host) (schemes : List Text) (cache : CacheConfig) : World :=
  ((ofHost h).addProvider (.archive (.ofSchemes schemes cache))).2

/-- What a dealing makes of the world. Only an archive that there is can lose its last reference. -/
def deal (w : World) : Dealing → World
  | .openNew uri => (backend.openNew 0 uri w).2
  | .findOpen uri => (backend.findOpen 0 uri w).2
  | .close archive => backend.close archive w
  | .forget archive => if archive < w.fileSystems.length then w.forget archive else w
  | .change host => { w with host }

/-- What several dealings make of the world, one after the other. -/
def dealAll (w : World) (dealings : List Dealing) : World := dealings.foldl deal w

/-- The root address of the filesystem with a number, if there is one. -/
def rootOf (w : World) (id : FileSystemId) : Option Url :=
  (w.fileSystem? id).map FileSystem.root

/-- A provider for archives is alone at work, remembers what serves, and nobody has lost a reference
on a filesystem that is still to come. -/
structure Alone (w : World) (p : ArchiveProvider) : Prop where
  providers_eq : w.providers = [.archive p]
  remembers : p.Remembers w.serves w.rootOf
  lt_of_forgotten : ∀ id ∈ w.forgotten, id < w.fileSystems.length

variable {w : World} {p : ArchiveProvider}

lemma alone_ofArchives (h : Host) (schemes : List Text) (cache : CacheConfig) :
    (ofArchives h schemes cache).Alone (.ofSchemes schemes cache) where
  providers_eq := rfl
  remembers := {
    rooted := fun hmem => absurd hmem List.not_mem_nil
    serving := fun hserves _ => by cases hserves }
  lt_of_forgotten _ hid := by cases hid

/-- What serves has a root address. -/
lemma rootOf_eq_iff {id : FileSystemId} {root : Url} (hserves : w.serves id = true) :
    w.rootOf id = some root ↔ w.rootUri id = root := by
  obtain ⟨hopen, -⟩ := Bool.and_eq_true_iff.mp hserves
  unfold rootOf rootUri
  cases hfs : w.fileSystem? id with
  | none =>
    rw [isOpen, hfs] at hopen
    cases hopen
  | some fs => exact Option.some_inj

/-- What serves is there. -/
lemma lt_of_serves {id : FileSystemId} (hserves : w.serves id = true) :
    id < w.fileSystems.length := by
  obtain ⟨hopen, -⟩ := Bool.and_eq_true_iff.mp hserves
  cases hfs : w.fileSystem? id with
  | none =>
    rw [isOpen, hfs] at hopen
    cases hopen
  | some fs => exact (List.getElem?_eq_some_iff.mp hfs).1

/-! ## What a dealing changes -/

/-- A request to a provider that is alone changes what it remembers, and adds the archive that it
opens. -/
lemma Alone.openNew_eq (h : w.Alone p) (uri : Url) :
    openNew 0 uri w =
      match p.openNew w.serves w.host w.fileSystems.length uri with
      | (.error e, q) => (.error e, { w with providers := [.archive q] })
      | (.ok fs, q) => (.ok w.fileSystems.length,
          { w with providers := [.archive q], fileSystems := w.fileSystems ++ [.archive fs] }) := by
  have hfirst : w.providers[0]? = some (.archive p) := by rw [h.providers_eq]; rfl
  have hset : ∀ q, w.setProvider 0 (.archive q) = { w with providers := [.archive q] } :=
    fun q => by rw [setProvider, h.providers_eq]; rfl
  unfold openNew
  rw [hfirst]
  dsimp only
  generalize p.openNew w.serves w.host w.fileSystems.length uri = opened
  obtain ⟨e | fs, q⟩ := opened
  · exact congrArg (Prod.mk _) (hset q)
  · dsimp only
    rw [hset]
    rfl

/-- The answer of a provider that is alone. -/
lemma Alone.openNew_fst (h : w.Alone p) (uri : Url) :
    (openNew 0 uri w).1 =
      (p.openNew w.serves w.host w.fileSystems.length uri).1.map
        fun _ => w.fileSystems.length := by
  rw [h.openNew_eq]
  generalize p.openNew w.serves w.host w.fileSystems.length uri = opened
  obtain ⟨e | fs, q⟩ := opened
  · rfl
  · rfl

lemma Alone.findOpen_eq (h : w.Alone p) (uri : Url) :
    findOpen 0 uri w = p.findOpen w.serves w.host uri := by
  have hfirst : w.providers[0]? = some (.archive p) := by rw [h.providers_eq]; rfl
  rw [findOpen, hfirst]

/-- A request that fails changes no more than what is remembered. -/
lemma Alone.openNew_error (h : w.Alone p) {uri : Url} {e : ProviderError}
    (he : (p.openNew w.serves w.host w.fileSystems.length uri).1 = .error e) :
    (openNew 0 uri w).2 =
      { w with providers :=
        [.archive (p.openNew w.serves w.host w.fileSystems.length uri).2] } := by
  rw [h.openNew_eq]
  generalize p.openNew w.serves w.host w.fileSystems.length uri = opened at he ⊢
  obtain ⟨cause | fs, q⟩ := opened
  · rfl
  · cases he

/-- A request that succeeds adds an archive. -/
lemma Alone.openNew_ok (h : w.Alone p) {uri : Url} {fs : ArchiveFs}
    (hfs : (p.openNew w.serves w.host w.fileSystems.length uri).1 = .ok fs) :
    (openNew 0 uri w).2 =
      { w with
        providers := [.archive (p.openNew w.serves w.host w.fileSystems.length uri).2]
        fileSystems := w.fileSystems ++ [.archive fs] } := by
  rw [h.openNew_eq]
  generalize p.openNew w.serves w.host w.fileSystems.length uri = opened at hfs ⊢
  obtain ⟨cause | archive, q⟩ := opened
  · cases hfs
  · obtain rfl := Except.ok.inj hfs
    rfl

/-- Another filesystem comes behind those that there are. -/
lemma rootOf_append {providers : List Provider} {fs : FileSystem} {id : FileSystemId}
    (hne : id ≠ w.fileSystems.length) :
    rootOf { w with providers, fileSystems := w.fileSystems ++ [fs] } id = w.rootOf id ∧
      serves { w with providers, fileSystems := w.fileSystems ++ [fs] } id = w.serves id := by
  have hsame : (w.fileSystems ++ [fs])[id]? = w.fileSystems[id]? := by
    rcases Nat.lt_or_gt_of_ne hne with hlt | hgt
    · exact List.getElem?_append_left hlt
    · rw [List.getElem?_eq_none (Nat.le_of_lt hgt), List.getElem?_eq_none]
      rw [List.length_append, List.length_singleton]
      exact hgt
  unfold serves isOpen rootOf fileSystem?
  dsimp only
  rw [hsame]
  exact ⟨rfl, rfl⟩

/-- After a request, whether it succeeds or not, the provider remembers what serves. -/
lemma Alone.openNew (h : w.Alone p) (uri : Url) :
    ∃ q, (World.openNew 0 uri w).2.Alone q := by
  refine ⟨(p.openNew w.serves w.host w.fileSystems.length uri).2, ?_⟩
  cases hopened : (p.openNew w.serves w.host w.fileSystems.length uri).1 with
  | error e =>
    rw [h.openNew_error hopened]
    refine ⟨rfl, ?_, h.lt_of_forgotten⟩
    change ArchiveProvider.Remembers _ w.serves w.rootOf
    rcases ArchiveProvider.openNew_error hopened with hsame | hpruned
    · rw [hsame]
      exact h.remembers
    · rw [hpruned]
      exact h.remembers.prune
  | ok fs =>
    rw [h.openNew_ok hopened]
    refine ⟨rfl, ?_, fun id hid => ?_⟩
    · cases hroot : Archive.root w.host uri with
      | error e =>
        rw [ArchiveProvider.openNew, hroot] at hopened
        cases hopened
      | ok found =>
        obtain ⟨root, path⟩ := found
        rcases p.openNew_of_root w.serves w.fileSystems.length hroot with
          ⟨id, -, hopen⟩ | ⟨hfree, ⟨e, -, hopen⟩ | ⟨fs', hfs, hopen⟩⟩
        · rw [hopen] at hopened
          cases hopened
        · rw [hopen] at hopened
          cases hopened
        · rw [hopen] at hopened ⊢
          obtain rfl := Except.ok.inj hopened
          refine h.remembers.open hfree ?_ (fun id hne => ?_) ?_
          · rw [← (ArchiveFs.eq_of_openAt hfs).1]
            unfold rootOf fileSystem?
            rw [List.getElem?_concat_length]
            rfl
          · obtain ⟨hsame, hserves⟩ := rootOf_append hne
            exact ⟨hsame, fun hid => hserves ▸ hid⟩
          · unfold rootOf fileSystem?
            rw [List.getElem?_eq_none (Nat.le_refl _)]
            rfl
    · rw [List.length_append]
      exact Nat.lt_add_right _ (h.lt_of_forgotten id hid)

/-- Where filesystems keep their roots and no more of them serve, they are remembered as before. -/
lemma Alone.of_fewer (h : w.Alone p) {w' : World} (hproviders : w'.providers = w.providers)
    (hroot : ∀ id, w'.rootOf id = w.rootOf id)
    (hserves : ∀ id, w'.serves id = true → w.serves id = true)
    (hforgotten : ∀ id ∈ w'.forgotten, id < w'.fileSystems.length) : w'.Alone p :=
  ⟨hproviders.trans h.providers_eq, h.remembers.of_fewer hserves hroot, hforgotten⟩

/-- A closed archive serves no more. -/
lemma Alone.close (h : w.Alone p) (id : FileSystemId) : (World.close id w).Alone p := by
  obtain ⟨hself, hproviders, hlength⟩ := fileSystem?_close_self id w
  have hforgotten : (World.close id w).forgotten = w.forgotten := by
    unfold World.close
    split
    · rfl
    · rfl
  refine h.of_fewer hproviders (fun other => ?_) (fun other hserves => ?_) fun other hother => ?_
  · unfold rootOf
    rcases eq_or_ne id other with rfl | hne
    · rw [hself, Option.map_map]
      exact congrArg (Option.map · _) (funext FileSystem.root_close)
    · rw [fileSystem?_close hne]
  · unfold serves isOpen at hserves ⊢
    rw [hforgotten] at hserves
    rcases eq_or_ne id other with rfl | hne
    · rw [hself, Option.any_map] at hserves
      obtain ⟨hclosed, -⟩ := Bool.and_eq_true_iff.mp hserves
      cases hfs : w.fileSystem? id with
      | none =>
        rw [hfs] at hclosed
        cases hclosed
      | some fs =>
        rw [hfs] at hclosed
        exact absurd (hclosed.symm.trans fs.isOpen_close) Bool.noConfusion
    · rwa [fileSystem?_close hne] at hserves
  · rw [hlength]
    exact h.lt_of_forgotten other (hforgotten ▸ hother)

/-- An archive that nobody refers to serves no more. -/
lemma Alone.forget (h : w.Alone p) {id : FileSystemId} (hid : id < w.fileSystems.length) :
    (w.forget id).Alone p := by
  refine h.of_fewer rfl (fun _ => rfl) (fun other hserves => ?_) fun other hother => ?_
  · obtain ⟨hopen, hkept⟩ := Bool.and_eq_true_iff.mp hserves
    refine Bool.and_eq_true_iff.mpr ⟨hopen, ?_⟩
    change (!(id :: w.forgotten).contains other) = true at hkept
    rw [List.contains_cons, Bool.not_or] at hkept
    exact (Bool.and_eq_true_iff.mp hkept).2
  · rcases List.mem_cons.mp hother with rfl | hold
    · exact hid
    · exact h.lt_of_forgotten other hold

/-- After a dealing, the provider remembers what serves. -/
lemma Alone.deal (h : w.Alone p) (dealing : Dealing) : ∃ q, (w.deal dealing).Alone q := by
  cases dealing with
  | openNew uri => exact h.openNew uri
  | findOpen uri => exact ⟨p, h⟩
  | close id => exact ⟨p, h.close id⟩
  | forget id =>
    unfold World.deal
    dsimp only
    split
    · next hid => exact ⟨p, h.forget hid⟩
    · exact ⟨p, h⟩
  | change host => exact ⟨p, h.providers_eq, h.remembers, h.lt_of_forgotten⟩

/-- Behind any dealings, the provider remembers what serves. -/
lemma Alone.dealAll (h : w.Alone p) (dealings : List Dealing) :
    ∃ q, (w.dealAll dealings).Alone q := by
  induction dealings generalizing w p with
  | nil => exact ⟨p, h⟩
  | cons dealing rest ih =>
    obtain ⟨q, hq⟩ := h.deal dealing
    exact ih hq

/-! ## One open archive for each root -/

/-- Two archives that serve have different root addresses. -/
lemma Alone.eq_of_rootUri_eq (h : w.Alone p) {i j : FileSystemId} (hi : w.serves i = true)
    (hj : w.serves j = true) (hroot : w.rootUri i = w.rootUri j) : i = j := by
  have hlook := h.remembers.serving hi ((rootOf_eq_iff hi).mpr hroot)
  have hlook' := h.remembers.serving hj ((rootOf_eq_iff hj).mpr rfl)
  exact Option.some.inj (hlook.symm.trans hlook')

/-- A request for a new archive is refused for the archive that serves, and only for it. -/
lemma Alone.alreadyExists_iff (h : w.Alone p) {uri root : Url} {path : Path}
    (hroot : Archive.root w.host uri = .ok (root, path)) :
    (World.openNew 0 uri w).1 = .error .alreadyExists ↔
      ∃ id, w.serves id = true ∧ w.rootUri id = root := by
  rw [h.openNew_fst]
  rcases p.openNew_of_root w.serves w.fileSystems.length hroot with
    ⟨id, hlook, hopen⟩ | ⟨hfree, hopened⟩
  · have hfound := h.remembers.lookup_prune_iff.mp hlook
    rw [hopen]
    exact iff_of_true rfl ⟨id, hfound.1, (rootOf_eq_iff hfound.1).mp hfound.2⟩
  · refine iff_of_false (fun hexists => ?_) ?_
    · rcases hopened with ⟨e, hfs, hopen⟩ | ⟨fs, -, hopen⟩
      · rw [hopen] at hexists
        obtain rfl := Except.error.inj hexists
        exact ArchiveProvider.openAt_ne_alreadyExists _ _ _ _ hfs
      · rw [hopen] at hexists
        cases hexists
    · rintro ⟨id, hserves, hid⟩
      rw [h.remembers.lookup_prune_iff.mpr ⟨hserves, (rootOf_eq_iff hserves).mpr hid⟩] at hfree
      cases hfree

/-- A failed request changes no answer of the provider, whatever the host is then. -/
lemma Alone.answers_of_error (h : w.Alone p) {uri : Url} {e : ProviderError}
    (he : (World.openNew 0 uri w).1 = .error e) (host : Host) (other : Url) :
    (World.openNew 0 other { (World.openNew 0 uri w).2 with host }).1 =
        (World.openNew 0 other { w with host }).1 ∧
      World.findOpen 0 other { (World.openNew 0 uri w).2 with host } =
        World.findOpen 0 other { w with host } := by
  have hfailed : (p.openNew w.serves w.host w.fileSystems.length uri).1 = .error e := by
    rw [h.openNew_fst] at he
    generalize (p.openNew w.serves w.host w.fileSystems.length uri).1 = opened at he ⊢
    cases opened with
    | error cause => exact congrArg _ (Except.error.inj he)
    | ok fs => cases he
  rw [h.openNew_error hfailed]
  have hnow : ({ w with host } : World).Alone p :=
    ⟨h.providers_eq, h.remembers, h.lt_of_forgotten⟩
  rcases ArchiveProvider.openNew_error hfailed with hsame | hpruned
  · rw [hsame, ← h.providers_eq]
    exact ⟨rfl, rfl⟩
  · rw [hpruned]
    have hthen : ({ w with providers := [.archive (p.prune w.serves)], host } : World).Alone
        (p.prune w.serves) := ⟨rfl, h.remembers.prune, h.lt_of_forgotten⟩
    constructor
    · rw [hthen.openNew_fst, hnow.openNew_fst]
      exact congrArg _ (p.openNew_prune host w.fileSystems.length other)
    · rw [hthen.findOpen_eq, hnow.findOpen_eq]
      exact h.remembers.findOpen_prune host other

/-- Behind any dealings with a provider for archives and any changes of the host's files in between,
no two archives that are open and referred to have the same root address. A request that leads to a
root is refused as a second one just when such an archive has this root, and a request for an open
archive finds this archive or none. A request that fails leaves all answers as they were. -/
theorem one_open_archive_per_root (h : Host) (schemes : List Text) (cache : CacheConfig)
    (dealings : List Dealing) :
    let w := (ofArchives h schemes cache).dealAll dealings
    (∀ i j, w.serves i = true → w.serves j = true → w.rootUri i = w.rootUri j → i = j) ∧
      (∀ uri root path, Archive.root w.host uri = .ok (root, path) →
        ((World.openNew 0 uri w).1 = .error .alreadyExists ↔
            ∃ id, w.serves id = true ∧ w.rootUri id = root) ∧
          (∀ id, w.serves id = true → w.rootUri id = root →
            World.findOpen 0 uri w = .ok id) ∧
          ((∀ id, w.serves id = true → w.rootUri id ≠ root) →
            World.findOpen 0 uri w = .error .notFound)) ∧
      ∀ uri e, (World.openNew 0 uri w).1 = .error e → ∀ host other,
        (World.openNew 0 other { (World.openNew 0 uri w).2 with host }).1 =
            (World.openNew 0 other { w with host }).1 ∧
          World.findOpen 0 other { (World.openNew 0 uri w).2 with host } =
            World.findOpen 0 other { w with host } := by
  intro w
  obtain ⟨p, hp⟩ := (alone_ofArchives h schemes cache).dealAll dealings
  change w.Alone p at hp
  refine ⟨fun i j => hp.eq_of_rootUri_eq, fun uri root path hroot => ?_,
    fun uri e he => hp.answers_of_error he⟩
  obtain ⟨hfound, hnone⟩ := hp.remembers.findOpen_eq hroot
  refine ⟨hp.alreadyExists_iff hroot, fun id hserves hid => ?_, fun hno => ?_⟩
  · rw [hp.findOpen_eq]
    exact hfound id hserves ((rootOf_eq_iff hserves).mpr hid)
  · rw [hp.findOpen_eq]
    exact hnone fun id hserves hid => hno id hserves ((rootOf_eq_iff hserves).mp hid)

/-! ### An archive that is opened and closed -/

/-- A provider for archives that has opened the sample archive. -/
def sampleOpen : World :=
  (ofArchives ArchiveFs.sampleHost ["jar".toList] {}).dealAll [.openNew (ArchiveFs.sampleUri "")]

/-- Someone who refers to the archive has closed it. -/
def sampleClosed : World :=
  (ofArchives ArchiveFs.sampleHost ["jar".toList] {}).dealAll
    [.openNew (ArchiveFs.sampleUri ""), .close 0]

/-- While the archive is open, a second request for it is refused and the open one is found, and
whatever is found without the refusal is found behind it. Once the archive is closed none is found,
and a request is not refused any more. -/
theorem one_open_archive_of_sample :
    (World.openNew 0 (ArchiveFs.sampleUri "a") sampleOpen).1 = .error .alreadyExists ∧
      World.findOpen 0 (ArchiveFs.sampleUri "a") sampleOpen = .ok 0 ∧
      (∀ host uri, World.findOpen 0 uri
          { (World.openNew 0 (ArchiveFs.sampleUri "a") sampleOpen).2 with host } =
        World.findOpen 0 uri { sampleOpen with host }) ∧
      World.findOpen 0 (ArchiveFs.sampleUri "a") sampleClosed = .error .notFound ∧
      (World.openNew 0 (ArchiveFs.sampleUri "a") sampleClosed).1 ≠ .error .alreadyExists := by
  have hroot : Archive.root sampleOpen.host (ArchiveFs.sampleUri "a") =
      .ok (ArchiveFs.sampleUri "", ⟨[47, 122]⟩) := eq_ok_of_toOption (by decide +kernel)
  have hroot' : Archive.root sampleClosed.host (ArchiveFs.sampleUri "a") =
      .ok (ArchiveFs.sampleUri "", ⟨[47, 122]⟩) := eq_ok_of_toOption (by decide +kernel)
  have hserves : sampleOpen.serves 0 = true := by decide +kernel
  have hsame : sampleOpen.rootUri 0 = ArchiveFs.sampleUri "" := by decide +kernel
  have hlength : sampleClosed.fileSystems.length = 1 := by decide +kernel
  have hclosed : sampleClosed.serves 0 = false := by decide +kernel
  have hnone : ∀ id, sampleClosed.serves id ≠ true := by
    intro id hid
    obtain rfl : id = 0 := Nat.lt_one_iff.mp (hlength ▸ lt_of_serves hid)
    rw [hclosed] at hid
    cases hid
  have hopen := one_open_archive_per_root ArchiveFs.sampleHost ["jar".toList] {}
    [.openNew (ArchiveFs.sampleUri "")]
  have hthen := one_open_archive_per_root ArchiveFs.sampleHost ["jar".toList] {}
    [.openNew (ArchiveFs.sampleUri ""), .close 0]
  rw [← sampleOpen] at hopen
  rw [← sampleClosed] at hthen
  obtain ⟨hrefuses, hfinds, -⟩ := hopen.2.1 _ _ _ hroot
  obtain ⟨hrefuses', -, hmisses⟩ := hthen.2.1 _ _ _ hroot'
  have hrefused := hrefuses.mpr ⟨0, hserves, hsame⟩
  refine ⟨hrefused, hfinds 0 hserves hsame,
    fun host uri => (hopen.2.2 _ _ hrefused host uri).2,
    hmisses fun id hid => absurd hid (hnone id), fun hexists => ?_⟩
  obtain ⟨id, hid, -⟩ := hrefuses'.mp hexists
  exact hnone id hid

end World

end ContentMounts
