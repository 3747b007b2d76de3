import ContentMounts.Proofs.Provider.Archives

/-!
# Filesystems in one custody

A provider that is registered with one pool leaves its filesystems to this pool. What it promises in
return is the contract `Custody`: a filesystem that it opens is a new one and open, one that it
finds is its own and open, and the root address of a filesystem never changes. Nobody else opens or
closes a filesystem of the provider, and no more than that is asked of the other providers.

The numbers that were given out are told from those that are still free by `Holdings`, which the
contract is stated with. The provider for archives keeps it (`World.archiveCustody`).
-/

namespace ContentMounts

variable {σ ρ : Type}

/-- The filesystems that there are in a state: those of one provider, and all that were ever given
out. Not every value of the type of states need be a state that providers can be in. -/
structure Holdings (σ : Type) where
  valid : σ → Prop
  own : FileSystemId → σ → Prop
  known : FileSystemId → σ → Prop

namespace Holdings

variable (H : Holdings σ) (B : Backend σ ρ)

/-- What there is stays there, and a filesystem of the provider keeps its root address. -/
structure Grows (s s' : σ) : Prop where
  valid : H.valid s'
  known : ∀ {f}, H.known f s → H.known f s'
  rootUri_eq : ∀ {f}, H.own f s → B.rootUri f s' = B.rootUri f s

/-- The filesystems of the provider stay as they are, and it does not get another. -/
structure Keeps (s s' : σ) : Prop extends H.Grows B s s' where
  own_iff : ∀ f, H.own f s' ↔ H.own f s
  isOpen_eq : ∀ {f}, H.own f s → B.isOpen f s' = B.isOpen f s

/-- The provider gets a new filesystem, which is open, and its others stay as they are. -/
structure Opens (new : FileSystemId) (s s' : σ) : Prop extends H.Grows B s s' where
  fresh : ¬H.known new s
  own_iff : ∀ f, H.own f s' ↔ H.own f s ∨ f = new
  isOpen_new : B.isOpen new s' = true
  isOpen_eq : ∀ {f}, H.own f s → B.isOpen f s' = B.isOpen f s

/-- A filesystem is closed, and the others of the provider stay as they are. -/
structure Closes (old : FileSystemId) (s s' : σ) : Prop extends H.Grows B s s' where
  own_iff : ∀ f, H.own f s' ↔ H.own f s
  isOpen_eq : ∀ {f}, H.own f s → B.isOpen f s' = (B.isOpen f s && f != old)

variable {H B}

lemma Keeps.refl {s : σ} (h : H.valid s) : H.Keeps B s s where
  valid := h
  known := id
  rootUri_eq _ := rfl
  own_iff _ := Iff.rfl
  isOpen_eq _ := rfl

end Holdings

/-- The contract of a provider whose filesystems are in the custody of one pool. -/
structure Custody (B : Backend σ ρ) (provider : ProviderId) extends Holdings σ where
  known_of_own : ∀ {f s}, valid s → own f s → known f s
  openNew_ok : ∀ {uri f s s'}, valid s → B.openNew provider uri s = (.ok f, s') →
    toHoldings.Opens B f s s'
  openNew_error : ∀ {uri e s s'}, valid s → B.openNew provider uri s = (.error e, s') →
    toHoldings.Keeps B s s'
  findOpen_ok : ∀ {uri f s s'}, valid s → B.findOpen provider uri s = (.ok f, s') →
    own f s ∧ B.isOpen f s = true
  findOpen_keeps : ∀ other uri {s}, valid s → toHoldings.Keeps B s (B.findOpen other uri s).2
  /-- Another provider does not concern the filesystems of this one. -/
  other_openNew : ∀ {other} uri {s}, other ≠ provider → valid s →
    toHoldings.Keeps B s (B.openNew other uri s).2
  /-- Another provider gives out none of the filesystems of this one. -/
  other_ok : ∀ {other uri f s s'}, other ≠ provider → valid s →
    B.openNew other uri s = (.ok f, s') ∨ B.findOpen other uri s = (.ok f, s') →
      known f s' ∧ ¬own f s'
  resource_keeps : ∀ f uri {s}, valid s → toHoldings.Keeps B s (B.resource f uri s).2
  close_closes : ∀ f {s}, valid s → toHoldings.Closes B f s (B.close f s)

/-! ## The provider for archives -/

namespace ArchiveProvider

/-- A request adds no more to what is held than the archive that it opens. -/
lemma mem_held_openNew {p : ArchiveProvider} {serves : FileSystemId → Bool} {h : Host}
    {fresh : FileSystemId} {uri : Url} {pair : Url × FileSystemId}
    (hpair : pair ∈ (p.openNew serves h fresh uri).2.held) :
    pair ∈ p.held ∨ pair.2 = fresh ∧ ∃ fs, (p.openNew serves h fresh uri).1 = .ok fs := by
  have hprune : ∀ {pair}, pair ∈ (p.prune serves).held → pair ∈ p.held :=
    fun hin => (List.mem_filter.mp hin).1
  revert hpair
  unfold openNew
  split
  · exact .inl
  · dsimp only
    split
    · exact fun hin => .inl (hprune hin)
    · split
      · next fs _ =>
        intro hin
        rcases List.mem_cons.mp hin with rfl | hold
        · exact .inr ⟨rfl, fs, rfl⟩
        · exact .inl (hprune hold)
      · exact fun hin => .inl (hprune hin)

/-- An archive is open when it is opened. -/
lemma isOpen_of_openNew {p : ArchiveProvider} {serves : FileSystemId → Bool} {h : Host}
    {fresh : FileSystemId} {uri : Url} {fs : ArchiveFs}
    (hfs : (p.openNew serves h fresh uri).1 = .ok fs) : fs.isOpen = true := by
  revert hfs
  unfold openNew
  split
  · intro hfs
    cases hfs
  · dsimp only
    split
    · intro hfs
      cases hfs
    · split
      · next hopen =>
        intro hfs
        exact (ArchiveFs.eq_of_openAt (hopen.trans hfs)).2.1
      · intro hfs
        cases hfs

/-- What is found is held, and counts. -/
lemma mem_held_of_findOpen {p : ArchiveProvider} {serves : FileSystemId → Bool} {h : Host}
    {uri : Url} {id : FileSystemId} (hid : p.findOpen serves h uri = .ok id) :
    (∃ root, (root, id) ∈ p.held) ∧ serves id = true := by
  obtain ⟨⟨root, path⟩, -, hid⟩ := exists_of_bind_eq_ok hid
  dsimp only at hid
  split at hid
  · next found hlook =>
    split at hid
    · next hserves =>
      cases hid
      obtain ⟨before, behind, hheld, -⟩ := List.lookup_eq_some_iff.mp hlook
      exact ⟨⟨root, by simp [hheld]⟩, hserves⟩
    · cases hid
  · cases hid

end ArchiveProvider

namespace World

/-- The archives of a provider that is the only one at work. It holds none but those that it has
opened. -/
def holdings : Holdings World where
  valid w := ∃ p, w.providers = [.archive p] ∧
    ∀ pair ∈ p.held, (w.archive? pair.2).isSome = true
  own f w := (w.archive? f).isSome = true
  known f w := f < w.fileSystems.length

lemma isSome_archive?_iff {f : FileSystemId} {w : World} :
    (w.archive? f).isSome = true ↔ ∃ fs, w.fileSystem? f = some (.archive fs) := by
  rw [Option.isSome_iff_exists]
  exact exists_congr fun fs => archive?_eq_some_iff

lemma lt_of_archive? {f : FileSystemId} {w : World} (h : (w.archive? f).isSome = true) :
    f < w.fileSystems.length := by
  obtain ⟨fs, hfs⟩ := isSome_archive?_iff.mp h
  exact (List.getElem?_eq_some_iff.mp hfs).1

section

variable {f : FileSystemId} {w w' : World}

/-- What a filesystem shows depends on nothing but the filesystem. -/
lemma shows_of_fileSystem?_eq (h : w'.fileSystem? f = w.fileSystem? f) :
    backend.isOpen f w' = backend.isOpen f w ∧ backend.rootUri f w' = backend.rootUri f w ∧
      (w'.archive? f).isSome = (w.archive? f).isSome := by
  have hopen : ∀ w, backend.isOpen f w = (w.fileSystem? f).any FileSystem.isOpen := fun _ => rfl
  have hroot : ∀ w, backend.rootUri f w =
      ((w.fileSystem? f).map FileSystem.root).getD noRoot := fun _ => rfl
  unfold archive?
  rw [hopen, hopen, hroot, hroot, h]
  exact ⟨rfl, rfl, rfl⟩

/-- Where no filesystem changes the archives are kept. -/
lemma keeps_of_fileSystems_eq (h : w'.fileSystems = w.fileSystems) (hvalid : holdings.valid w') :
    holdings.Keeps backend w w' := by
  have hshows := fun f => @shows_of_fileSystem?_eq f w w' (by rw [fileSystem?, h, fileSystem?])
  constructor
  · refine ⟨hvalid, fun {f} hf => ?_, fun {f} _ => (hshows f).2.1⟩
    change f < w'.fileSystems.length
    rw [h]
    exact hf
  · intro f
    change (w'.archive? f).isSome = true ↔ (w.archive? f).isSome = true
    rw [(hshows f).2.2]
  · exact fun {f} _ => (hshows f).1

/-- An archive that is opened comes behind the other filesystems. -/
lemma opens_of_append {fs : ArchiveFs} (h : w'.fileSystems = w.fileSystems ++ [.archive fs])
    (hopen : fs.isOpen = true) (hvalid : holdings.valid w') :
    holdings.Opens backend w.fileSystems.length w w' := by
  have hlength : w'.fileSystems.length = w.fileSystems.length + 1 := by
    rw [h, List.length_append, List.length_singleton]
  have hnew : w'.fileSystem? w.fileSystems.length = some (.archive fs) := by
    rw [fileSystem?, h, List.getElem?_concat_length]
  have hshows : ∀ {f}, f < w.fileSystems.length → w'.fileSystem? f = w.fileSystem? f := by
    intro f hf
    rw [fileSystem?, fileSystem?, h, List.getElem?_append_left hf]
  constructor
  · refine ⟨hvalid, fun {f} hf => ?_, fun hf => ?_⟩
    · change f < w'.fileSystems.length
      rw [hlength]
      exact Nat.lt_succ_of_lt hf
    · exact (shows_of_fileSystem?_eq (hshows (lt_of_archive? hf))).2.1
  · exact Nat.lt_irrefl _
  · intro f
    change (w'.archive? f).isSome = true ↔ (w.archive? f).isSome = true ∨ _
    rcases Nat.lt_trichotomy f w.fileSystems.length with hlt | rfl | hgt
    · rw [(shows_of_fileSystem?_eq (hshows hlt)).2.2]
      exact ⟨.inl, fun hor => hor.resolve_right (Nat.ne_of_lt hlt)⟩
    · exact iff_of_true (isSome_archive?_iff.mpr ⟨fs, hnew⟩) (.inr rfl)
    · refine iff_of_false (fun hown => ?_) ?_
      · have hlt := lt_of_archive? hown
        rw [hlength] at hlt
        exact Nat.not_lt_of_le (Nat.le_of_lt_succ hlt) hgt
      · rintro (hown | heq)
        · exact Nat.lt_asymm (lt_of_archive? hown) hgt
        · exact Nat.ne_of_gt hgt heq
  · change (w'.fileSystem? _).any FileSystem.isOpen = true
    rw [hnew]
    exact hopen
  · exact fun hf => (shows_of_fileSystem?_eq (hshows (lt_of_archive? hf))).1

/-- A request to the provider opens an archive or none. -/
lemma opens_or_keeps_openNew (uri : Url) (h : holdings.valid w) :
    (∃ f, (openNew 0 uri w).1 = .ok f ∧ holdings.Opens backend f w (openNew 0 uri w).2) ∨
      ∃ e, (openNew 0 uri w).1 = .error e ∧ holdings.Keeps backend w (openNew 0 uri w).2 := by
  obtain ⟨p, hp, hheld⟩ := h
  have hfirst : w.providers[0]? = some (.archive p) := by rw [hp]; rfl
  have hset : ∀ q, w.providers.set 0 (.archive q) = [.archive q] := fun q => by rw [hp]; rfl
  unfold openNew
  rw [hfirst]
  dsimp only
  have hmem := @ArchiveProvider.mem_held_openNew p w.serves w.host w.fileSystems.length uri
  have hopen := @ArchiveProvider.isOpen_of_openNew p w.serves w.host w.fileSystems.length uri
  generalize p.openNew w.serves w.host w.fileSystems.length uri = opened at hmem hopen ⊢
  obtain ⟨e | fs, q⟩ := opened
  · refine .inr ⟨e, rfl, keeps_of_fileSystems_eq rfl ⟨q, hset q, fun pair hpair => ?_⟩⟩
    rcases hmem hpair with hold | ⟨-, fs, hfs⟩
    · exact hheld pair hold
    · cases hfs
  · have hadded : ((w.setProvider 0 (.archive q)).addFileSystem (.archive fs)).2.fileSystems =
        w.fileSystems ++ [.archive fs] := rfl
    refine .inl ⟨w.fileSystems.length, rfl, ?_⟩
    refine opens_of_append hadded (hopen rfl) ⟨q, hset q, fun pair hpair => ?_⟩
    rw [isSome_archive?_iff]
    rcases hmem hpair with hold | ⟨hfresh, -⟩
    · obtain ⟨old, hold⟩ := isSome_archive?_iff.mp (hheld pair hold)
      have hlt := (List.getElem?_eq_some_iff.mp hold).1
      exact ⟨old, (List.getElem?_append_left hlt).trans hold⟩
    · rw [hfresh]
      exact ⟨fs, List.getElem?_concat_length⟩

/-- A filesystem that is closed is the one that it was. -/
lemma fileSystem?_close_self (f : FileSystemId) (w : World) :
    (close f w).fileSystem? f = (w.fileSystem? f).map FileSystem.close ∧
      (close f w).providers = w.providers ∧
      (close f w).fileSystems.length = w.fileSystems.length := by
  unfold close
  cases hf : w.fileSystem? f with
  | none => exact ⟨hf, rfl, rfl⟩
  | some fs =>
    have hlt := (List.getElem?_eq_some_iff.mp hf).1
    exact ⟨List.getElem?_set_self hlt, rfl, List.length_set⟩

/-- Closing concerns one archive. -/
lemma closes_close (old : FileSystemId) (h : holdings.valid w) :
    holdings.Closes backend old w (close old w) := by
  obtain ⟨hself, hproviders, hlength⟩ := fileSystem?_close_self old w
  have hother : ∀ {f}, f ≠ old → (close old w).fileSystem? f = w.fileSystem? f :=
    fun hne => fileSystem?_close (Ne.symm hne) w
  have hown : ∀ f, ((close old w).archive? f).isSome = (w.archive? f).isSome := by
    intro f
    rcases eq_or_ne f old with rfl | hne
    · unfold archive?
      rw [hself]
      cases w.fileSystem? f with
      | none => rfl
      | some fs => cases fs <;> rfl
    · exact (shows_of_fileSystem?_eq (hother hne)).2.2
  constructor
  · refine ⟨?_, fun {f} hf => ?_, fun {f} hf => ?_⟩
    · obtain ⟨p, hp, hheld⟩ := h
      exact ⟨p, hproviders.trans hp, fun pair hpair => (hown pair.2).trans (hheld pair hpair)⟩
    · change f < (close old w).fileSystems.length
      rw [hlength]
      exact hf
    · rcases eq_or_ne f old with rfl | hne
      · obtain ⟨fs, hfs⟩ := isSome_archive?_iff.mp hf
        change (((close f w).fileSystem? f).map FileSystem.root).getD noRoot =
          ((w.fileSystem? f).map FileSystem.root).getD noRoot
        rw [hself, hfs]
        rfl
      · exact (shows_of_fileSystem?_eq (hother hne)).2.1
  · intro f
    change ((close old w).archive? f).isSome = true ↔ (w.archive? f).isSome = true
    rw [hown]
  · intro f hf
    rcases eq_or_ne f old with rfl | hne
    · obtain ⟨fs, hfs⟩ := isSome_archive?_iff.mp hf
      have hclosed : backend.isOpen f (close f w) = false := by
        change ((close f w).fileSystem? f).any FileSystem.isOpen = false
        rw [hself, hfs]
        rfl
      rw [hclosed, bne_self_eq_false, Bool.and_false]
    · have hbne : (f != old) = true := by simpa using hne
      rw [hbne, Bool.and_true]
      exact (shows_of_fileSystem?_eq (hother hne)).1

/-- There is no second provider. -/
lemma getElem?_eq_none_of_ne {other : ProviderId} (hne : other ≠ 0) (h : holdings.valid w) :
    w.providers[other]? = none := by
  obtain ⟨p, hp, -⟩ := h
  rw [hp, List.getElem?_eq_none_iff, List.length_singleton]
  exact Nat.one_le_iff_ne_zero.mpr hne

end

/-- The provider for archives keeps its promises where it is the only provider. -/
def archiveCustody : Custody backend 0 where
  toHoldings := holdings
  known_of_own _ hown := lt_of_archive? hown
  openNew_ok := by
    intro uri f w w' h hopen
    have hopened := opens_or_keeps_openNew uri h
    have hop : openNew 0 uri w = (.ok f, w') := hopen
    rw [hop] at hopened
    rcases hopened with ⟨g, ⟨⟩, hopens⟩ | ⟨e, ⟨⟩, -⟩
    exact hopens
  openNew_error := by
    intro uri e w w' h hopen
    have hopened := opens_or_keeps_openNew uri h
    have hop : openNew 0 uri w = (.error e, w') := hopen
    rw [hop] at hopened
    rcases hopened with ⟨g, ⟨⟩, -⟩ | ⟨e, -, hkeeps⟩
    exact hkeeps
  findOpen_ok := by
    intro uri f w w' h hfind
    obtain ⟨p, hp, hheld⟩ := h
    have hf : findOpen 0 uri w = .ok f := congrArg Prod.fst hfind
    have hfirst : w.providers[0]? = some (.archive p) := by rw [hp]; rfl
    rw [findOpen, hfirst] at hf
    obtain ⟨⟨root, hmem⟩, hserves⟩ := ArchiveProvider.mem_held_of_findOpen hf
    exact ⟨hheld _ hmem, (Bool.and_eq_true _ _ ▸ hserves).1⟩
  findOpen_keeps _ _ _ h := .refl h
  other_openNew := by
    intro other uri w hne h
    change holdings.Keeps backend w (openNew other uri w).2
    rw [openNew, getElem?_eq_none_of_ne hne h]
    exact .refl h
  other_ok := by
    rintro other uri f w w' hne h (hopen | hfind)
    · have hop : openNew other uri w = (.ok f, w') := hopen
      rw [openNew, getElem?_eq_none_of_ne hne h] at hop
      cases hop
    · have hf : findOpen other uri w = .ok f := congrArg Prod.fst hfind
      rw [findOpen, getElem?_eq_none_of_ne hne h] at hf
      cases hf
  resource_keeps _ _ _ h := .refl h
  close_closes f _ h := closes_close f h

end World

end ContentMounts
