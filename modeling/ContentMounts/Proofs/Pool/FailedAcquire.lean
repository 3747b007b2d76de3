import ContentMounts.Proofs.Pool.Log
import ContentMounts.Proofs.Pool.Staleness
import ContentMounts.Proofs.Provider.Lasting

/-!
# Acquisitions that fail

An acquisition that fails leaves the pool as it was, and it leaves no filesystem behind: what a
provider has opened for it is closed again, unless it is the filesystem of a pooled record, and no
pooled record loses its filesystem (`failed_acquire`). That holds over all providers whose
filesystems last (`Backend.Lasting`).

What carries it is that a record is pooled under the root address of its filesystem (`Kept`). The
filesystem that a provider gives for a request is closed only if its root address leads to no
record, or to the record of another filesystem, so it is that of no pooled record.
-/

namespace ContentMounts

namespace Backend

variable {σ ρ : Type} {B : Backend σ ρ} {others : σ → σ → Prop} {s₀ : σ}

/-- A request to a provider asks for a new filesystem, and perhaps for one that is open. -/
lemma becomes_request (provider : ProviderId) (input : Text) (uri : Url) (s : σ) :
    B.Becomes others s (B.request provider input uri s).2 := by
  unfold request
  split
  · next hopen => exact .of_openNew hopen
  · next hopen =>
    split
    · next hfind => exact (Becomes.of_openNew hopen).trans (.of_findOpen hfind)
    · next hfind => exact (Becomes.of_openNew hopen).trans (.of_findOpen hfind)
  · next hopen => exact .of_openNew hopen

lemma Becomes.of_request {provider : ProviderId} {input : Text} {uri : Url} {s s' : σ}
    {answer : Except MountError (FileSystemId × Bool)}
    (h : B.request provider input uri s = (answer, s')) : B.Becomes others s s' := by
  have hbecomes : B.Becomes others s (B.request provider input uri s).2 :=
    becomes_request provider input uri s
  rwa [h] at hbecomes

/-- What a request is answered with is given out. -/
lemma givenOut_request {provider : ProviderId} {input : Text} {uri : Url} {s s' : σ}
    {f : FileSystemId} {opened : Bool} (hs : B.Becomes others s₀ s)
    (h : B.request provider input uri s = (.ok (f, opened), s')) :
    B.GivenOut others s₀ f s' := by
  unfold request at h
  split at h
  · next hopen =>
    simp only [Prod.mk.injEq, Except.ok.injEq] at h
    obtain ⟨⟨rfl, -⟩, rfl⟩ := h
    exact .opened hs hopen
  · next hopen =>
    split at h
    · next hfind =>
      simp only [Prod.mk.injEq, Except.ok.injEq] at h
      obtain ⟨⟨rfl, -⟩, rfl⟩ := h
      exact .found (hs.trans (.of_openNew hopen)) hfind
    · cases h
  · cases h

end Backend

namespace Pool

variable {σ ρ : Type} {B : Backend σ ρ} {others : σ → σ → Prop} {s₀ : σ}

/-! ## What turns do to the providers -/

/-- What a request leads to is part of what the acquisition leads to. -/
lemma becomes_acquireFrom (provider : ProviderId) (input : Text) (uri : Url) (p : Pool ρ) (s : σ) :
    B.Becomes others (B.request provider input uri s).2
      (p.acquireFrom B provider input uri s).2.2 := by
  have hspare : ∀ opened used fs s, B.Becomes others s (B.closeSpare opened used fs s) :=
    fun _ _ fs s => Backend.closeSpare_cases (.refl s) fun _ _ => Backend.Becomes.of_close fs s
  have hattempted := attempted_acquireFrom B provider input uri p s
  generalize p.acquireFrom B provider input uri s = out at hattempted ⊢
  cases hattempted with
  | unopened hrequest =>
    rw [hrequest]
    exact .refl _
  | unshared hrequest _ hanswer =>
    rw [hrequest]
    exact (hspare _ _ _ _).trans (.of_resource hanswer)
  | shared hrequest _ hanswer =>
    rw [hrequest]
    exact (hspare _ _ _ _).trans (.of_resource hanswer)
  | shut hrequest _ _ =>
    rw [hrequest]
    exact .refl _
  | unmounted hrequest _ _ hanswer =>
    rw [hrequest]
    refine (Backend.Becomes.of_resource hanswer).trans ?_
    dsimp only
    split
    · exact Backend.Becomes.of_close _ _
    · exact .refl _
  | added hrequest _ _ hanswer =>
    rw [hrequest]
    exact .of_resource hanswer

/-- The filesystem of a record that is retired is closed, or was before. -/
lemma becomes_retire (record : MountRecord) (s : σ) :
    B.Becomes others s (if record.defunct then s else B.close record.fs s) := by
  split
  · exact .refl _
  · exact Backend.Becomes.of_close _ _

/-- A turn is a few things that happen to the providers. -/
lemma becomes_step {turn : Turn σ} (hturn : ∀ change, turn = .elsewhere change →
    ∀ s, others s (change s)) (st : Pool ρ × σ) : B.Becomes others st.2 (step B turn st).2 := by
  obtain ⟨p, s⟩ := st
  cases turn with
  | acquire provider input uri =>
    exact (Backend.becomes_request provider input uri s).trans
      (becomes_acquireFrom provider input uri p s)
  | mark id => exact .refl _
  | release id =>
    have hreleased := released_release B id p s
    change B.Becomes others s (p.release B id s).2
    generalize p.release B id s = out at hreleased ⊢
    cases hreleased with
    | unmarked _ => exact .refl _
    | dropped _ _ _ => exact .refl _
    | lowered _ _ _ _ _ => exact .refl _
    | retired _ _ _ _ _ => exact becomes_retire _ _
  | evict id =>
    have hevicted := evicted_evict B id p s
    change B.Becomes others s (p.evict B id s).2.2
    generalize p.evict B id s = out at hevicted ⊢
    cases hevicted with
    | absent _ => exact .refl _
    | retired _ _ => exact becomes_retire _ _
  | register schemes provider => exact .refl _
  | navigate id entry =>
    rcases step_navigate B id entry p s with hsame | ⟨fs, uri, hasked⟩
    · rw [hsame]
      exact .refl _
    · rw [hasked]
      exact .of_resource rfl
  | elsewhere change => exact .of_happens (.elsewhere (hturn change rfl s))

/-! ## Records and the root addresses of their filesystems -/

/-- A filesystem is that of a pooled record. -/
def InUse (p : Pool ρ) (f : FileSystemId) : Prop :=
  ∃ id record, p.record? id = some record ∧ p.isPooled id = true ∧ record.fs = f

/-- The filesystem of every record was given out, and has the record's key as its root address. -/
structure Kept (B : Backend σ ρ) (others : σ → σ → Prop) (s₀ : σ) (p : Pool ρ) (s : σ) : Prop where
  becomes : B.Becomes others s₀ s
  givenOut : ∀ {id record}, p.record? id = some record → B.GivenOut others s₀ record.fs s
  rootUri_eq : ∀ {id record}, p.record? id = some record → B.rootUri record.fs s = record.key

lemma kept_start (config : PoolConfig) (registry : Registry) :
    Kept B others s₀ (start config registry : Pool ρ) s₀ where
  becomes := .refl s₀
  givenOut hr := by cases hr
  rootUri_eq hr := by cases hr

section

variable {p q : Pool ρ} {s s' : σ} (hlasting : B.Lasting others s₀)

include hlasting

/-- The records that were there keep their filesystems, so only new ones have to be looked at. -/
lemma Kept.of_change (h : Kept B others s₀ p s) (hc : Change p q) (hs : B.Becomes others s s')
    (hnew : ∀ {id record}, p.record? id = none → q.record? id = some record →
      B.GivenOut others s₀ record.fs s' ∧ B.rootUri record.fs s' = record.key) :
    Kept B others s₀ q s' := by
  have hall : ∀ {id record}, q.record? id = some record →
      B.GivenOut others s₀ record.fs s' ∧ B.rootUri record.fs s' = record.key := by
    intro id record hr
    cases hold : p.record? id with
    | none => exact hnew hold hr
    | some old =>
      obtain ⟨references, defunct, hsame⟩ := exists_recount_of_change hc hold
      obtain rfl := Option.some_inj.mp (hr.symm.trans hsame)
      have hgiven := h.givenOut hold
      exact ⟨hgiven.later hs, (hlasting.rootUri_eq hgiven hs).trans (h.rootUri_eq hold)⟩
  exact ⟨h.becomes.trans hs, fun hr => (hall hr).1, fun hr => (hall hr).2⟩

/-- Every turn keeps the records and their filesystems together: a record that it makes is made under
the root address of what was given for it. -/
lemma Kept.step {st : Pool ρ × σ} (h : Kept B others s₀ st.1 st.2) {turn : Turn σ}
    (hturn : ∀ change, turn = .elsewhere change → ∀ s, others s (change s)) :
    Kept B others s₀ (Pool.step B turn st).1 (Pool.step B turn st).2 := by
  refine h.of_change hlasting (step_change B turn st) (becomes_step hturn st) ?_
  intro id record hold hr
  obtain ⟨p, s⟩ := st
  obtain ⟨provider, input, uri, f, key, rfl, ⟨opened, s₁, hrequest, hkey⟩, rfl⟩ :=
    exists_acquire_of_step hr hold
  have hgiven := Backend.givenOut_request h.becomes hrequest
  have hbehind : B.Becomes others s₁ (p.acquireFrom B provider input uri s).2.2 := by
    have hbecomes : B.Becomes others (B.request provider input uri s).2
        (p.acquireFrom B provider input uri s).2.2 := becomes_acquireFrom provider input uri p s
    rwa [hrequest] at hbecomes
  exact ⟨hgiven.later hbehind, (hlasting.rootUri_eq hgiven hbehind).trans hkey⟩

lemma Kept.run {turns : List (Turn σ)} {st : Pool ρ × σ} (h : Kept B others s₀ st.1 st.2)
    (hturns : ∀ change, .elsewhere change ∈ turns → ∀ s, others s (change s)) :
    Kept B others s₀ (Pool.run B turns st).1 (Pool.run B turns st).2 := by
  induction turns generalizing st with
  | nil => exact h
  | cons turn turns ih =>
    refine ih (h.step hlasting fun change heq => ?_) fun change hin => ?_
    · exact hturns change (heq ▸ List.mem_cons_self)
    · exact hturns change (List.mem_cons_of_mem turn hin)

/-- The root address of a pooled record's filesystem leads to that record. -/
lemma Kept.pooled?_eq (h : Kept B others s₀ p s) (hs : B.Becomes others s s') {id : RecordId}
    {record : MountRecord} (hr : p.record? id = some record) (hp : p.isPooled id = true) :
    p.pooled? (B.rootUri record.fs s') = some (id, record) := by
  obtain ⟨same, hsame, hlook⟩ := (isPooled_iff p id).mp hp
  obtain rfl := Option.some_inj.mp (hr.symm.trans hsame)
  rw [hlasting.rootUri_eq (h.givenOut hr) hs, h.rootUri_eq hr]
  exact pooled?_eq_some_iff.mpr ⟨hlook, hr⟩

/-- A record that the root address of its filesystem leads to is pooled. -/
lemma Kept.isPooled_of_pooled? (h : Kept B others s₀ p s) (hs : B.Becomes others s s')
    {id : RecordId} {record : MountRecord}
    (hp : p.pooled? (B.rootUri record.fs s') = some (id, record)) :
    p.record? id = some record ∧ p.isPooled id = true := by
  obtain ⟨hlook, hr⟩ := pooled?_eq_some_iff.mp hp
  rw [hlasting.rootUri_eq (h.givenOut hr) hs, h.rootUri_eq hr] at hlook
  exact ⟨hr, (isPooled_iff p id).mpr ⟨record, hr, hlook⟩⟩

/-- A filesystem whose root address leads to no record, or to the record of another one, is not in
use. -/
lemma Kept.not_inUse (h : Kept B others s₀ p s) (hs : B.Becomes others s s') {f : FileSystemId}
    (hother : ∀ id record, p.pooled? (B.rootUri f s') = some (id, record) → record.fs ≠ f) :
    ¬ InUse p f := by
  rintro ⟨id, record, hr, hp, rfl⟩
  exact hother id record (h.pooled?_eq hlasting hs hr hp) rfl

end

/-! ## Attempts that fail -/

/-- What an attempt that fails has done to filesystems, by its log, and how they are behind it. -/
inductive Undone (B : Backend σ ρ) (p : Pool ρ) (provider : ProviderId) (t : σ) :
    List Event → Prop
  /-- None was opened. -/
  | nothing : Undone B p provider t []
  /-- The one that was opened is that of a pooled record. -/
  | inUse {f : FileSystemId} : InUse p f → Undone B p provider t [.opened provider f]
  /-- The one that was opened is not open. -/
  | unusable {f : FileSystemId} : B.isOpen f t = false →
      Undone B p provider t [.opened provider f]
  /-- The one that was opened is closed again. -/
  | closed {f : FileSystemId} : ¬InUse p f → B.isOpen f t = false →
      Undone B p provider t [.closed f, .opened provider f]

section

variable {p : Pool ρ} {provider : ProviderId} {s s₁ s₂ : σ} {f : FileSystemId}

/-- Where the key is in use, what was opened is the filesystem in use, or it is closed. -/
lemma Kept.undone_closeSpare (hlasting : B.Lasting others s₀) (h : Kept B others s₀ p s)
    (hs : B.Becomes others s s₁) (hgiven : B.GivenOut others s₀ f s₁) {id : RecordId}
    {record : MountRecord} (hused : p.pooled? (B.rootUri f s₁) = some (id, record)) (opened : Bool)
    (hbehind : B.Becomes others (B.closeSpare opened record.fs f s₁) s₂) :
    Undone B p provider s₂
      (B.logged.closeSpare opened record.fs f (s₁, openings provider (.ok (f, opened)))).2 := by
  cases opened with
  | false => exact .nothing
  | true =>
    by_cases hsame : record.fs = f
    · subst hsame
      obtain ⟨hr, hpooled⟩ := h.isPooled_of_pooled? hlasting hs hused
      rw [Backend.closeSpare_self]
      exact .inUse ⟨id, record, hr, hpooled, rfl⟩
    · rw [Backend.closeSpare_of_ne B hsame] at hbehind
      rw [Backend.closeSpare_of_ne B.logged hsame]
      refine .closed (h.not_inUse hlasting hs fun other same hfound => ?_)
        (hlasting.isOpen_eq_false hgiven hbehind)
      rw [hused] at hfound
      cases hfound
      exact hsame

/-- Where the key is free, what was opened is closed. -/
lemma Kept.undone_unmounted (hlasting : B.Lasting others s₀) (h : Kept B others s₀ p s)
    (hs : B.Becomes others s s₁) (hgiven : B.GivenOut others s₀ f s₁)
    (hfree : p.pooled? (B.rootUri f s₁) = none) (hbehind : B.Becomes others s₁ s₂) (opened : Bool) :
    let st := (s₂, openings provider (.ok (f, opened)))
    Undone B p provider (if opened then B.logged.close f st else st).1
      (if opened then B.logged.close f st else st).2 := by
  cases opened with
  | false => exact .nothing
  | true =>
    refine .closed (h.not_inUse hlasting hs fun other same hfound => ?_)
      (hlasting.isOpen_eq_false (hgiven.later hbehind) (.refl _))
    rw [hfree] at hfound
    cases hfound

end

/-- Wherever an attempt fails, it has closed what was opened for it. -/
lemma undone_acquireFrom (hlasting : B.Lasting others s₀) {p : Pool ρ} {s : σ}
    (h : Kept B others s₀ p s) {provider : ProviderId} {input : Text} {uri : Url} {e : MountError}
    (hfails : (p.acquireFrom B.logged provider input uri (s, [])).1 = .error e) :
    Undone B p provider (p.acquireFrom B.logged provider input uri (s, [])).2.2.1
      (p.acquireFrom B.logged provider input uri (s, [])).2.2.2 := by
  have hattempted := attempted_acquireFrom B.logged provider input uri p (s, [])
  generalize p.acquireFrom B.logged provider input uri (s, []) = out at hattempted hfails ⊢
  cases hattempted with
  | @unopened cause st₁ hrequest =>
    obtain ⟨-, hlog⟩ := request_of_logged hrequest
    rw [hlog]
    exact .nothing
  | @unshared f opened id record cause st₁ st₂ hrequest hused hanswer =>
    obtain ⟨s₁, log₁⟩ := st₁
    obtain ⟨hrequest, rfl⟩ := request_of_logged hrequest
    obtain ⟨hanswer, hlog⟩ := resource_of_logged hanswer
    rw [hlog, List.append_nil]
    rw [Backend.logged_closeSpare] at hanswer
    exact h.undone_closeSpare hlasting (.of_request hrequest)
      (Backend.givenOut_request h.becomes hrequest) hused opened (.of_resource hanswer)
  | shared _ _ _ => cases hfails
  | @shut f opened st₁ hrequest _ hopen =>
    obtain ⟨-, hlog⟩ := request_of_logged hrequest
    rw [hlog, List.append_nil]
    cases opened with
    | false => exact .nothing
    | true => exact .unusable hopen
  | @unmounted f opened cause st₁ st₂ hrequest hfree _ hanswer =>
    obtain ⟨s₁, log₁⟩ := st₁
    obtain ⟨s₂, log₂⟩ := st₂
    obtain ⟨hrequest, rfl⟩ := request_of_logged hrequest
    obtain ⟨hanswer, rfl⟩ := resource_of_logged hanswer
    rw [List.append_nil]
    exact h.undone_unmounted hlasting (.of_request hrequest)
      (Backend.givenOut_request h.becomes hrequest) hfree (.of_resource hanswer) opened
  | added _ _ _ _ => cases hfails

/-- An attempt that fails leaves the pool as it was, closes no filesystem of a pooled record, and has
closed what was opened for it unless it is that of a pooled record. The log that is kept beside it
changes nothing. -/
def FailsCleanly (B : Backend σ ρ) (p : Pool ρ) (attempt : Except MountError HandleId × Pool ρ × σ)
    (logged : Except MountError HandleId × Pool ρ × σ × List Event) : Prop :=
  (logged.1 = attempt.1 ∧ unlogged logged.2 = attempt.2) ∧
  ∀ e, attempt.1 = .error e → attempt.2.1 = p ∧
    (∀ f, .closed f ∈ logged.2.2.2 → ¬ InUse p f) ∧
    ∀ provider f, .opened provider f ∈ logged.2.2.2 → ¬ InUse p f →
      B.isOpen f attempt.2.2 = false

lemma failsCleanly_acquireFrom (hlasting : B.Lasting others s₀) {p : Pool ρ} {s : σ}
    (h : Kept B others s₀ p s) (provider : ProviderId) (input : Text) (uri : Url) :
    FailsCleanly B p (p.acquireFrom B provider input uri s)
      (p.acquireFrom B.logged provider input uri (s, [])) := by
  have hlogged := acquireFrom_logged B provider input uri p (s, [])
  refine ⟨hlogged, fun e hfails => ⟨?_, ?_⟩⟩
  · have hacquired := acquired_acquireFrom B provider input uri p s
    rw [hfails] at hacquired
    generalize (p.acquireFrom B provider input uri s).2.1 = q at hacquired
    cases hacquired with
    | refused => rfl
  · have hundone := undone_acquireFrom hlasting h (hlogged.1.trans hfails)
    have hstate : (p.acquireFrom B provider input uri s).2.2 =
        (p.acquireFrom B.logged provider input uri (s, [])).2.2.1 :=
      (congrArg Prod.snd hlogged.2).symm
    rw [hstate]
    generalize (p.acquireFrom B.logged provider input uri (s, [])).2.2.1 = t at hundone ⊢
    generalize (p.acquireFrom B.logged provider input uri (s, [])).2.2.2 = log at hundone ⊢
    cases hundone with
    | nothing => simp
    | inUse hinUse => exact ⟨by simp, by simp +contextual [hinUse]⟩
    | unusable hclosed => exact ⟨by simp, by simp +contextual [hclosed]⟩
    | closed hfree hclosed => exact ⟨by simp [hfree], by simp +contextual [hclosed]⟩

/-- An attempt that finds no provider does nothing, and any other is what it does with the lock
held. -/
lemma failsCleanly_acquire (hlasting : B.Lasting others s₀) {p : Pool ρ} {s : σ}
    (h : Kept B others s₀ p s) (input : Text) :
    FailsCleanly B p (p.acquire B input s) (p.acquire B.logged input (s, [])) := by
  unfold acquire
  cases p.provider input with
  | error e => exact ⟨⟨rfl, rfl⟩, fun _ _ => ⟨rfl, by simp⟩⟩
  | ok found => exact failsCleanly_acquireFrom hlasting h found.2 input found.1

/-- Let the filesystems of the providers last. Behind every run of a pool that starts empty, an
acquisition that fails changes nothing of the pool, closes no filesystem of a pooled record, and
leaves none open that was opened for it but for that of a pooled record. It is the same if others
have had their turns since the provider was found. -/
theorem failed_acquire (hlasting : B.Lasting others s₀) (config : PoolConfig) (registry : Registry)
    (turns : List (Turn σ))
    (hturns : ∀ change, .elsewhere change ∈ turns → ∀ s, others s (change s)) :
    let st := run B turns ((start config registry : Pool ρ), s₀)
    (∀ input, FailsCleanly B st.1 (st.1.acquire B input st.2)
      (st.1.acquire B.logged input (st.2, []))) ∧
    ∀ provider input uri, FailsCleanly B st.1 (st.1.acquireFrom B provider input uri st.2)
      (st.1.acquireFrom B.logged provider input uri (st.2, [])) := by
  intro st
  have hkept : Kept B others s₀ st.1 st.2 := (kept_start config registry).run hlasting hturns
  exact ⟨failsCleanly_acquire hlasting hkept, failsCleanly_acquireFrom hlasting hkept⟩

/-! ### A filesystem that is opened in vain -/

/-- A provider without files that opens a second filesystem beside the first one. -/
def twinWorld : World where
  host := ⟨.tick 0, [], [], 0, []⟩
  providers := [.scripted ⟨["mem".toList], none, false, [.auto, .fresh], []⟩]
  fileSystems := []
  forgotten := []

/-- The addresses that the provider serves. -/
def twinRegistry : Registry := ⟨[("mem".toList, 0)]⟩

/-- The first acquisition. -/
def mountTwin : List (Turn World) :=
  [.acquire 0 "mem:/x!/".toList ⟨"mem".toList, none, "/x!/".toList, none, none⟩]

/-- A pool that has mounted the first filesystem. -/
def twinMount : Pool ProvidedResource × World :=
  run World.backend mountTwin (start {} twinRegistry, twinWorld)

/-- The attempt to mount an entry that the filesystem refuses, with the log. -/
def attemptDenied : Except MountError HandleId × Pool ProvidedResource × World × List Event :=
  twinMount.1.acquire World.backend.logged "mem:/x!/deny".toList (twinMount.2, [])

/-- A second filesystem is opened for the attempt and closed again, the attempt fails, and the first
filesystem stays open and mounted. -/
theorem failed_acquire_of_twin :
    let attempt := twinMount.1.acquire World.backend "mem:/x!/deny".toList twinMount.2
    InUse twinMount.1 0 ∧ World.backend.isOpen 0 attempt.2.2 = true ∧
      attempt.1.toOption = none ∧ attempt.2.1 = twinMount.1 ∧
      .opened 0 1 ∈ attemptDenied.2.2.2 ∧ World.backend.isOpen 1 attempt.2.2 = false := by
  intro attempt
  have hknown : World.HoldsKnown twinWorld := by
    intro p hp pair hpair
    obtain rfl := List.mem_singleton.mp hp
    cases hpair
  have hmounts : twinMount.1.records.map (·.fs) = [0] ∧ twinMount.1.isPooled 0 = true := by
    decide +kernel
  have hfails : attempt.1.toOption = none := by decide +kernel
  have hopened : .opened 0 1 ∈ attemptDenied.2.2.2 := by decide +kernel
  have hin : ∀ f, InUse twinMount.1 f → f = 0 := by
    rintro f ⟨id, record, hr, -, rfl⟩
    have hmem := List.mem_map_of_mem (f := (·.fs)) (List.mem_of_getElem? hr)
    rw [hmounts.1] at hmem
    exact List.mem_singleton.mp hmem
  obtain ⟨hclean, -⟩ := failed_acquire (World.lasting hknown) {} twinRegistry mountTwin
    (by simp [mountTwin])
  obtain ⟨-, hfailed⟩ := hclean "mem:/x!/deny".toList
  cases hanswer : attempt.1 with
  | ok handle =>
    rw [hanswer] at hfails
    cases hfails
  | error e =>
    obtain ⟨hpool, -, hclosed⟩ := hfailed e hanswer
    refine ⟨?_, by decide +kernel, rfl, hpool, hopened, hclosed 0 1 hopened fun h => ?_⟩
    · obtain ⟨record, hr⟩ := exists_record_of_isPooled hmounts.2
      have hmem := List.mem_map_of_mem (f := (·.fs)) (List.mem_of_getElem? hr)
      rw [hmounts.1] at hmem
      exact ⟨0, record, hr, hmounts.2, List.mem_singleton.mp hmem⟩
    · cases hin 1 h

end Pool

end ContentMounts
