import Mathlib.Logic.Relation
import ContentMounts.Proofs.Provider.Custody

/-!
# Filesystems that last

Providers may behave in any way, and others may use them beside the pool. What a pool relies on is no
more than this (`Backend.Lasting`): from the time when a provider gives a filesystem out, as a new
one or as one that is open already, its root address stays the same; and a filesystem that is closed
does not open again.

The providers at work keep the contract beside everyone who keeps it himself (`World.lasting`).
-/

namespace ContentMounts

namespace Backend

variable {σ ρ : Type} (B : Backend σ ρ) (others : σ → σ → Prop) (s₀ : σ)

/-- One thing that happens to the providers: an operation, or something that others do. -/
inductive Happens : σ → σ → Prop
  | openNew (provider : ProviderId) (uri : Url) (s : σ) : Happens s (B.openNew provider uri s).2
  | findOpen (provider : ProviderId) (uri : Url) (s : σ) : Happens s (B.findOpen provider uri s).2
  | close (f : FileSystemId) (s : σ) : Happens s (B.close f s)
  | resource (f : FileSystemId) (uri : Url) (s : σ) : Happens s (B.resource f uri s).2
  | elsewhere {s s' : σ} : others s s' → Happens s s'

/-- What becomes of the providers as things happen. -/
def Becomes : σ → σ → Prop := Relation.ReflTransGen (B.Happens others)

/-- A filesystem has been given out by some provider since a state. -/
inductive GivenOut (f : FileSystemId) : σ → Prop
  | opened {provider : ProviderId} {uri : Url} {s s' : σ} : B.Becomes others s₀ s →
      B.openNew provider uri s = (.ok f, s') → GivenOut f s'
  | found {provider : ProviderId} {uri : Url} {s s' : σ} : B.Becomes others s₀ s →
      B.findOpen provider uri s = (.ok f, s') → GivenOut f s'
  | later {s s' : σ} : GivenOut f s → B.Becomes others s s' → GivenOut f s'

/-- The root address of a filesystem does not change once it is given out, and a filesystem that is
closed does not open again. -/
structure Lasting : Prop where
  rootUri_eq : ∀ {f s s'}, B.GivenOut others s₀ f s → B.Becomes others s s' →
    B.rootUri f s' = B.rootUri f s
  isOpen_eq_false : ∀ {f s s'}, B.GivenOut others s₀ f s → B.Becomes others (B.close f s) s' →
    B.isOpen f s' = false

variable {B others s₀}

namespace Becomes

variable {s s' t : σ}

lemma refl (s : σ) : B.Becomes others s s := Relation.ReflTransGen.refl

lemma trans (h : B.Becomes others s s') (h' : B.Becomes others s' t) : B.Becomes others s t :=
  Relation.ReflTransGen.trans h h'

lemma of_happens (h : B.Happens others s s') : B.Becomes others s s' := .single h

lemma of_openNew {provider : ProviderId} {uri : Url} {answer : Except ProviderError FileSystemId}
    (h : B.openNew provider uri s = (answer, s')) : B.Becomes others s s' := by
  have hhappens : B.Happens others s (B.openNew provider uri s).2 := .openNew provider uri s
  rw [h] at hhappens
  exact .of_happens hhappens

lemma of_findOpen {provider : ProviderId} {uri : Url} {answer : Except ProviderError FileSystemId}
    (h : B.findOpen provider uri s = (answer, s')) : B.Becomes others s s' := by
  have hhappens : B.Happens others s (B.findOpen provider uri s).2 := .findOpen provider uri s
  rw [h] at hhappens
  exact .of_happens hhappens

lemma of_resource {f : FileSystemId} {uri : Url} {answer : Except ResourceError ρ}
    (h : B.resource f uri s = (answer, s')) : B.Becomes others s s' := by
  have hhappens : B.Happens others s (B.resource f uri s).2 := .resource f uri s
  rw [h] at hhappens
  exact .of_happens hhappens

lemma of_close (f : FileSystemId) (s : σ) : B.Becomes others s (B.close f s) :=
  .of_happens (.close f s)

end Becomes

end Backend

/-! ## The providers at work -/

/-- The filesystems that a provider holds. -/
def Provider.held : Provider → List (Url × FileSystemId)
  | archive p => p.held
  | scripted p => p.held

namespace ScriptedProvider

/-- A request adds no more to what is held than the filesystem that it makes. -/
lemma mem_held_openNew {p : ScriptedProvider} {isOpen : FileSystemId → Bool} {fresh : FileSystemId}
    {uri : Url} {pair : Url × FileSystemId} (hpair : pair ∈ (p.openNew isOpen fresh uri).2.held) :
    pair ∈ p.held ∨ pair.2 = fresh ∧ ∃ fs, (p.openNew isOpen fresh uri).1 = .ok fs := by
  have hput : ∀ {root}, pair ∈ Assoc.put root fresh p.held → pair ∈ p.held ∨ pair.2 = fresh := by
    intro root hin
    rcases Assoc.eq_or_mem_of_mem_put hin with rfl | hold
    · exact .inr rfl
    · exact .inl hold
  revert hpair
  unfold openNew
  dsimp only
  split
  · split
    · exact .inl
    · exact fun hin => (hput hin).imp_right fun hfresh => ⟨hfresh, _, rfl⟩
  · exact fun hin => (hput hin).imp_right fun hfresh => ⟨hfresh, _, rfl⟩
  · exact fun hin => (hput hin).imp_right fun hfresh => ⟨hfresh, _, rfl⟩
  · exact .inl
  · exact .inl

end ScriptedProvider

namespace World

variable {w w' : World} {f : FileSystemId}

/-- Every filesystem is still there, under its root address, and none has opened again. -/
def Outlives (w w' : World) : Prop :=
  ∀ f fs, w.fileSystem? f = some fs → ∃ fs', w'.fileSystem? f = some fs' ∧ fs'.root = fs.root ∧
    (fs'.isOpen = true → fs.isOpen = true)

/-- The providers hold filesystems that there are. -/
def HoldsKnown (w : World) : Prop :=
  ∀ p ∈ w.providers, ∀ pair ∈ p.held, pair.2 < w.fileSystems.length

/-- What others may do: open, read or close filesystems and change the host, but not touch what the
providers hold. -/
def Beside (w w' : World) : Prop := w'.providers = w.providers ∧ Outlives w w'

namespace Outlives

lemma refl (w : World) : Outlives w w := fun _ fs h => ⟨fs, h, rfl, id⟩

lemma trans {t : World} (h : Outlives w w') (h' : Outlives w' t) : Outlives w t := by
  intro f fs hfs
  obtain ⟨mid, hmid, hroot, hopen⟩ := h f fs hfs
  obtain ⟨new, hnew, hroot', hopen'⟩ := h' f mid hmid
  exact ⟨new, hnew, hroot'.trans hroot, hopen ∘ hopen'⟩

lemma length_le (h : Outlives w w') : w.fileSystems.length ≤ w'.fileSystems.length := by
  by_contra hlt
  obtain ⟨fs', hfs', -⟩ := h w'.fileSystems.length _
    (List.getElem?_eq_getElem (Nat.lt_of_not_le hlt))
  exact Nat.lt_irrefl _ (List.getElem?_eq_some_iff.mp hfs').1

lemma rootUri_eq (h : Outlives w w') {fs : FileSystem} (hfs : w.fileSystem? f = some fs) :
    rootUri f w' = rootUri f w := by
  obtain ⟨fs', hfs', hroot, -⟩ := h f fs hfs
  rw [rootUri, rootUri, hfs, hfs', Option.map_some, Option.map_some, hroot]

end Outlives

lemma outlives_openNew (provider : ProviderId) (uri : Url) (w : World) :
    Outlives w (openNew provider uri w).2 :=
  fun _ fs h => ⟨fs, fileSystem?_openNew provider uri h, rfl, id⟩

lemma outlives_close (f : FileSystemId) (w : World) : Outlives w (close f w) := by
  intro g fs hfs
  by_cases hne : f = g
  · subst hne
    refine ⟨fs.close, ?_, fs.root_close, fun hopen => ?_⟩
    · rw [(fileSystem?_close_self f w).1, hfs]
      rfl
    · rw [fs.isOpen_close] at hopen
      cases hopen
  · exact ⟨fs, (fileSystem?_close hne w).trans hfs, rfl, id⟩

/-- A new filesystem comes behind the others. -/
lemma lt_of_openNew {provider : ProviderId} {uri : Url} (h : (openNew provider uri w).1 = .ok f) :
    f = w.fileSystems.length ∧ f < (openNew provider uri w).2.fileSystems.length := by
  have hadd : ∀ new : FileSystem, w.fileSystems.length < (w.fileSystems ++ [new]).length := by
    simp
  revert h
  unfold openNew
  split
  · intro h
    cases h
  · split
    · intro h
      cases h
    · rintro ⟨⟩
      exact ⟨rfl, hadd _⟩
  · split
    · intro h
      cases h
    · rintro ⟨⟩
      exact ⟨rfl, hadd _⟩

/-- Where one provider is replaced, what is held was held before or is held by the new one only. -/
lemma mem_held_setProvider {X : Prop} {i : ProviderId} {old new q : Provider}
    {pair : Url × FileSystemId} (hi : w.providers[i]? = some old)
    (hnew : pair ∈ new.held → pair ∈ old.held ∨ X) (hq : q ∈ w.providers.set i new)
    (hpair : pair ∈ q.held) : (∃ p ∈ w.providers, pair ∈ p.held) ∨ X := by
  rcases List.mem_or_eq_of_mem_set hq with hold | rfl
  · exact .inl ⟨q, hold, hpair⟩
  · exact (hnew hpair).imp_left fun hin => ⟨old, List.mem_of_getElem? hi, hin⟩

/-- What is held behind a request was held before, or is the new filesystem. -/
lemma mem_held_openNew {provider : ProviderId} {uri : Url} {q : Provider}
    (hq : q ∈ (openNew provider uri w).2.providers) {pair : Url × FileSystemId}
    (hpair : pair ∈ q.held) :
    (∃ p ∈ w.providers, pair ∈ p.held) ∨ (openNew provider uri w).1 = .ok pair.2 := by
  revert hq
  unfold openNew
  split
  · exact fun hq => .inl ⟨q, hq, hpair⟩
  · next p hp =>
    have hmem := @ArchiveProvider.mem_held_openNew p w.serves w.host w.fileSystems.length uri pair
    generalize p.openNew w.serves w.host w.fileSystems.length uri = answer at hmem ⊢
    obtain ⟨e | fs, p'⟩ := answer
    · refine fun hq => mem_held_setProvider hp (fun hin => .inl ?_) hq hpair
      exact (hmem hin).resolve_right fun ⟨_, _, hok⟩ => by cases hok
    · refine fun hq => mem_held_setProvider hp (fun hin => ?_) hq hpair
      exact (hmem hin).imp_right fun hfresh => congrArg Except.ok hfresh.1.symm
  · next p hp =>
    have hmem := @ScriptedProvider.mem_held_openNew p w.isOpen w.fileSystems.length uri pair
    generalize p.openNew w.isOpen w.fileSystems.length uri = answer at hmem ⊢
    obtain ⟨e | fs, p'⟩ := answer
    · refine fun hq => mem_held_setProvider hp (fun hin => .inl ?_) hq hpair
      exact (hmem hin).resolve_right fun ⟨_, _, hok⟩ => by cases hok
    · refine fun hq => mem_held_setProvider hp (fun hin => ?_) hq hpair
      exact (hmem hin).imp_right fun hfresh => congrArg Except.ok hfresh.1.symm

/-- What is found is held. -/
lemma exists_held_of_findOpen {provider : ProviderId} {uri : Url}
    (h : findOpen provider uri w = .ok f) : ∃ p ∈ w.providers, ∃ pair ∈ p.held, pair.2 = f := by
  unfold findOpen at h
  split at h
  · cases h
  · next p hp =>
    obtain ⟨⟨root, hmem⟩, -⟩ := ArchiveProvider.mem_held_of_findOpen h
    exact ⟨.archive p, List.mem_of_getElem? hp, _, hmem, rfl⟩
  · next p hp =>
    unfold ScriptedProvider.findOpen at h
    split at h
    · next id hlook =>
      split at h
      · cases h
        exact ⟨.scripted p, List.mem_of_getElem? hp, _, Assoc.mem_of_lookup hlook, rfl⟩
      · cases h
    · cases h

/-! ### The contract -/

lemma HoldsKnown.of_eq (h : HoldsKnown w) (hproviders : w'.providers = w.providers)
    (hlength : w.fileSystems.length ≤ w'.fileSystems.length) : HoldsKnown w' := by
  intro p hp pair hpair
  rw [hproviders] at hp
  exact Nat.lt_of_lt_of_le (h p hp pair hpair) hlength

/-- Whatever happens, the filesystems outlive it, and the providers hold none that are not there. -/
lemma outlives_of_happens (h : backend.Happens Beside w w') :
    Outlives w w' ∧ (HoldsKnown w → HoldsKnown w') := by
  cases h with
  | openNew provider uri =>
    have houtlives := outlives_openNew provider uri w
    refine ⟨houtlives, fun hw q hq pair hpair => ?_⟩
    rcases mem_held_openNew hq hpair with ⟨p, hp, hold⟩ | hnew
    · exact Nat.lt_of_lt_of_le (hw p hp pair hold) houtlives.length_le
    · exact (lt_of_openNew hnew).2
  | findOpen provider uri => exact ⟨.refl w, id⟩
  | close f =>
    obtain ⟨-, hproviders, hlength⟩ := fileSystem?_close_self f w
    exact ⟨outlives_close f w, fun hw => hw.of_eq hproviders (Nat.le_of_eq hlength.symm)⟩
  | resource f uri => exact ⟨.refl w, id⟩
  | elsewhere hbeside => exact ⟨hbeside.2, fun hw => hw.of_eq hbeside.1 hbeside.2.length_le⟩

lemma outlives_of_becomes (h : backend.Becomes Beside w w') :
    Outlives w w' ∧ (HoldsKnown w → HoldsKnown w') := by
  induction h with
  | refl => exact ⟨.refl w, id⟩
  | tail _ hlast ih =>
    obtain ⟨houtlives, hholds⟩ := outlives_of_happens hlast
    exact ⟨ih.1.trans houtlives, hholds ∘ ih.2⟩

/-- A filesystem that has been given out is there. -/
lemma exists_fileSystem?_of_givenOut {w₀ : World} (hw : HoldsKnown w₀)
    (h : backend.GivenOut Beside w₀ f w) : ∃ fs, w.fileSystem? f = some fs := by
  induction h with
  | @opened provider uri s s' hbecomes hopen =>
    have hnew : (openNew provider uri s).1 = .ok f := congrArg Prod.fst hopen
    have hstate : (openNew provider uri s).2 = s' := congrArg Prod.snd hopen
    have hlt := (lt_of_openNew hnew).2
    rw [hstate] at hlt
    exact ⟨_, List.getElem?_eq_getElem hlt⟩
  | @found provider uri s s' hbecomes hfind =>
    have hf : findOpen provider uri s = .ok f := congrArg Prod.fst hfind
    obtain rfl : s = s' := congrArg Prod.snd hfind
    obtain ⟨p, hp, pair, hpair, rfl⟩ := exists_held_of_findOpen hf
    exact ⟨_, List.getElem?_eq_getElem ((outlives_of_becomes hbecomes).2 hw p hp pair hpair)⟩
  | later _ hbecomes ih =>
    obtain ⟨fs, hfs⟩ := ih
    obtain ⟨fs', hfs', -⟩ := (outlives_of_becomes hbecomes).1 f fs hfs
    exact ⟨fs', hfs'⟩

/-- The providers at work keep the contract. -/
theorem lasting {w₀ : World} (hw : HoldsKnown w₀) : backend.Lasting Beside w₀ where
  rootUri_eq hgiven hbecomes := by
    obtain ⟨fs, hfs⟩ := exists_fileSystem?_of_givenOut hw hgiven
    exact (outlives_of_becomes hbecomes).1.rootUri_eq hfs
  isOpen_eq_false := by
    intro f w w' hgiven hbecomes
    obtain ⟨fs, hfs⟩ := exists_fileSystem?_of_givenOut hw hgiven
    have hclosed : (close f w).fileSystem? f = some fs.close := by
      rw [(fileSystem?_close_self f w).1, hfs]
      rfl
    obtain ⟨fs', hfs', -, hopen⟩ := (outlives_of_becomes hbecomes).1 f _ hclosed
    change (w'.fileSystem? f).any FileSystem.isOpen = false
    rw [hfs', Option.any_some, Bool.eq_false_iff]
    intro hnow
    have hthen := hopen hnow
    rw [fs.isOpen_close] at hthen
    cases hthen

end World

end ContentMounts
