import ContentMounts.Proofs.Pool.Conserved

/-!
# Open filesystems are conserved

No filesystem of a provider leaks and none is closed too early, if the provider keeps the contract
`Custody`: those that are open are those of the pooled records, one for each, and whatever else the
provider has opened was closed, and closed once (`filesystems_conserved`).

Every turn of a pool preserves the invariant `Conserved` (`Conserved.step`). The one with an argument
is the acquisition: what a request leads to is listed first (`Requested`), and in each case what was
opened gets a record or is closed again.
-/

namespace ContentMounts

namespace Pool

variable {σ ρ : Type}

section Invariant

variable {B : Backend σ ρ} {provider : ProviderId} {C : Custody B provider}
  {pending : Option FileSystemId} {p : Pool ρ} {s : σ} {log : List Event} {f : FileSystemId}

/-! ## Acquisitions -/

/-- What a request to a provider for a filesystem can lead to. -/
inductive Requested (C : Custody B provider) (p : Pool ρ) (other : ProviderId) :
    Except MountError (FileSystemId × Bool) × σ × List Event → Prop
  /-- No filesystem. -/
  | refused {e : MountError} {st : σ × List Event} : Conserved C none p st →
      Requested C p other (.error e, st)
  /-- A new filesystem of the provider. -/
  | made {f : FileSystemId} {st : σ × List Event} : Conserved C (some f) p st → C.own f st.1 →
      B.isOpen f st.1 = true → (∀ {id record}, p.record? id = some record → record.fs ≠ f) →
      Requested C p other (.ok (f, true), st)
  /-- A filesystem that the provider has open. -/
  | found {f : FileSystemId} {st : σ × List Event} : Conserved C none p st → C.own f st.1 →
      B.isOpen f st.1 = true → Requested C p other (.ok (f, false), st)
  /-- A filesystem of another provider. -/
  | foreign {f : FileSystemId} {opened : Bool} {st : σ × List Event} : other ≠ provider →
      Conserved C none p st → C.known f st.1 → ¬C.own f st.1 →
      Requested C p other (.ok (f, opened), st)

/-- What other providers open is no concern of this one. -/
lemma Conserved.opened_of_ne (h : Conserved C pending p (s, log)) {other : ProviderId}
    (hne : other ≠ provider) (f : FileSystemId) :
    Conserved C pending p (s, .opened other f :: log) where
  valid := h.valid
  known := h.known
  keyed := h.keyed
  unique := h.unique
  isOpen_eq := h.isOpen_eq
  covered := h.covered
  opened_iff g := by
    rw [List.mem_cons, h.opened_iff, Event.opened.injEq]
    exact or_iff_right fun heq => hne heq.1.symm
  closings := by
    intro g hown
    rw [List.count_cons_of_ne (by simp)]
    exact h.closings hown
  unclosed := by
    intro g hunknown hin
    rcases List.mem_cons.mp hin with hbad | hin
    · cases hbad
    · exact h.unclosed hunknown hin

lemma Conserved.requested_findOpen (h : Conserved C none p (s, log)) (other : ProviderId)
    (input : Text) (uri : Url) :
    Requested C p other (match B.logged.findOpen other uri (s, log) with
      | (.ok fs, st) => (.ok (fs, false), st)
      | (.error e, st) => (.error (.unopened input e), st)) := by
  have hlogged : B.logged.findOpen other uri (s, log) =
      ((B.findOpen other uri s).1, (B.findOpen other uri s).2, log) := rfl
  have hkeeps := C.findOpen_keeps other uri h.valid
  rw [hlogged]
  cases hfind : B.findOpen other uri s with
  | mk answer s₁ =>
    rw [hfind] at hkeeps
    have hafter := h.keeps hkeeps
    cases answer with
    | error e => exact .refused hafter
    | ok f =>
      by_cases hother : other = provider
      · subst hother
        obtain ⟨hown, hopen⟩ := C.findOpen_ok h.valid hfind
        exact .found hafter ((hkeeps.own_iff f).mpr hown) ((hkeeps.isOpen_eq hown).trans hopen)
      · obtain ⟨hknown, hnot⟩ := C.other_ok hother h.valid (.inr hfind)
        exact .foreign hother hafter hknown hnot

lemma Conserved.requested (h : Conserved C none p (s, log)) (other : ProviderId) (input : Text)
    (uri : Url) : Requested C p other (B.logged.request other input uri (s, log)) := by
  unfold Backend.request
  cases hnew : B.openNew other uri s with
  | mk answer s₁ =>
    cases answer with
    | ok f =>
      rw [openNew_logged_ok hnew]
      by_cases hother : other = provider
      · subst hother
        have hopens := C.openNew_ok h.valid hnew
        obtain ⟨hafter, hfree⟩ := h.opens hopens
        exact .made hafter ((hopens.own_iff f).mpr (.inr rfl)) hopens.isOpen_new hfree
      · have hkeeps := C.other_openNew uri hother h.valid
        rw [hnew] at hkeeps
        obtain ⟨hknown, hnot⟩ := C.other_ok hother h.valid (.inl hnew)
        exact .foreign hother ((h.keeps hkeeps).opened_of_ne hother f) hknown hnot
    | error e =>
      rw [openNew_logged_error hnew]
      have hkeeps : C.Keeps B s s₁ := by
        by_cases hother : other = provider
        · subst hother
          exact C.openNew_error h.valid hnew
        · have hkeeps := C.other_openNew uri hother h.valid
          rw [hnew] at hkeeps
          exact hkeeps
      cases e with
      | alreadyExists =>
        have hfind := (h.keeps hkeeps).requested_findOpen other input uri
        dsimp only
        generalize B.logged.findOpen other uri (s₁, log) = found at hfind ⊢
        obtain ⟨answer, st⟩ := found
        cases answer <;> exact hfind
      | _ => exact .refused (h.keeps hkeeps)

/-- A resource that is looked up concerns no filesystem. -/
lemma Conserved.resource {st : σ × List Event} (h : Conserved C pending p st) (f : FileSystemId)
    (uri : Url) : Conserved C pending p (B.logged.resource f uri st).2 :=
  h.keeps (C.resource_keeps f uri h.valid)

lemma Conserved.of_resource {st st' : σ × List Event} (h : Conserved C pending p st)
    {f : FileSystemId} {uri : Url} {answer : Except ResourceError ρ}
    (hanswer : B.logged.resource f uri st = (answer, st')) : Conserved C pending p st' := by
  have hlooked := h.resource f uri
  rwa [hanswer] at hlooked

/-- One more handle on a record. -/
lemma Conserved.share {st : σ × List Event} (h : Conserved C pending p st) (id : RecordId)
    (root : ρ) : Conserved C pending (p.share id root).2 st :=
  h.of_sameRecords (SameRecords.modifyRecord p
    (f := fun r => { r with references := r.references + 1 }) (fun _ => rfl) (fun _ => rfl) id)
    fun j => isPooled_share p id j root

/-- A filesystem that was opened in vain is closed. -/
lemma Conserved.discard {st : σ × List Event} (h : Conserved C (some f) p st) (hown : C.own f st.1)
    (hopen : B.isOpen f st.1 = true)
    (hfree : ∀ {id record}, p.record? id = some record → record.fs ≠ f) :
    Conserved C none p (B.logged.close f st) := by
  refine h.closes (C.close_closes f h.valid) (C.known_of_own h.valid hown) (fun _ => hopen)
    (fun g hg => (Option.some.inj hg).symm) (SameRecords.refl p) fun {id record} hr _ => ?_
  have hbne : (record.fs != f) = true := by simpa using hfree hr
  rw [hbne, Bool.and_true]

/-- A filesystem of another provider is closed. -/
lemma Conserved.close_foreign {st : σ × List Event} (h : Conserved C none p st)
    (hknown : C.known f st.1) (hnot : ¬C.own f st.1) :
    Conserved C none p (B.logged.close f st) := by
  refine h.closes (C.close_closes f h.valid) hknown (fun hown => absurd hown hnot)
    (fun g hg => by cases hg) (SameRecords.refl p) fun {id record} _ hown => ?_
  have hbne : (record.fs != f) = true := by
    rw [bne_iff_ne]
    rintro rfl
    exact hnot hown
  rw [hbne, Bool.and_true]

/-! ### What becomes of a filesystem that was requested -/

section Requested

variable {other : ProviderId} {opened : Bool} {st st' : σ × List Event} {key uri : Url}
  {answer : Except ResourceError ρ}

/-- A question for a resource changes nothing about it. -/
lemma Requested.resource (h : Requested C p other (.ok (f, opened), st))
    (hanswer : B.logged.resource f uri st = (answer, st')) :
    Requested C p other (.ok (f, opened), st') ∧
      (C.own f st'.1 → B.rootUri f st'.1 = B.rootUri f st.1) := by
  obtain rfl : (B.logged.resource f uri st).2 = st' := congrArg Prod.snd hanswer
  cases h with
  | made hafter hown hopen hfree =>
    have hkeeps : C.Keeps B st.1 (B.logged.resource f uri st).2.1 :=
      C.resource_keeps f uri hafter.valid
    exact ⟨.made (hafter.resource f uri) ((hkeeps.own_iff f).mpr hown)
      ((hkeeps.isOpen_eq hown).trans hopen) hfree, fun _ => hkeeps.rootUri_eq hown⟩
  | found hafter hown hopen =>
    have hkeeps : C.Keeps B st.1 (B.logged.resource f uri st).2.1 :=
      C.resource_keeps f uri hafter.valid
    exact ⟨.found (hafter.resource f uri) ((hkeeps.own_iff f).mpr hown)
      ((hkeeps.isOpen_eq hown).trans hopen), fun _ => hkeeps.rootUri_eq hown⟩
  | foreign hne hafter hknown hnot =>
    have hkeeps : C.Keeps B st.1 (B.logged.resource f uri st).2.1 :=
      C.resource_keeps f uri hafter.valid
    have hnot' := fun hown => hnot ((hkeeps.own_iff f).mp hown)
    exact ⟨.foreign hne (hafter.resource f uri) (hkeeps.known hknown) hnot',
      fun hown => absurd hown hnot'⟩

/-- Where the key is in use, what was opened is closed. -/
lemma Requested.closeSpare (h : Requested C p other (.ok (f, opened), st)) {id : RecordId}
    {record : MountRecord} (hused : p.pooled? key = some (id, record)) :
    Conserved C none p (B.logged.closeSpare opened record.fs f st) := by
  cases h with
  | made hafter hown hopen hfree =>
    rw [Backend.closeSpare_of_ne B.logged (hfree (pooled?_eq_some_iff.mp hused).2)]
    exact hafter.discard hown hopen hfree
  | found hafter _ _ => exact hafter
  | foreign _ hafter hknown hnot =>
    exact Backend.closeSpare_cases (P := Conserved C none p) hafter
      fun _ _ => hafter.close_foreign hknown hnot

/-- Where the key is free and nothing is mounted, what was opened is closed. -/
lemma Requested.close (h : Requested C p other (.ok (f, opened), st)) :
    Conserved C none p (if opened then B.logged.close f st else st) := by
  cases h with
  | made hafter hown hopen hfree => exact hafter.discard hown hopen hfree
  | found hafter _ _ => exact hafter
  | foreign _ hafter hknown hnot =>
    split
    · exact hafter.close_foreign hknown hnot
    · exact hafter

/-- What is not open any more is of another provider. -/
lemma Requested.of_not_isOpen (h : Requested C p other (.ok (f, opened), st))
    (hclosed : B.isOpen f st.1 = false) : Conserved C none p st := by
  cases h with
  | made _ _ hopen _ => exact absurd (hclosed.symm.trans hopen) Bool.false_ne_true
  | found hafter _ _ => exact hafter
  | foreign _ hafter _ _ => exact hafter

/-- Where the key is free, a record is made for what was opened. -/
lemma Requested.addRecord (h : Requested C p other (.ok (f, opened), st)) (hl : Linked p)
    (hfree : p.pooled? key = none) (hroot : C.own f st.1 → B.rootUri f st.1 = key) (host : Host)
    (root : ρ) : Conserved C none (p.addRecord host key f root).2 st := by
  cases h with
  | made hafter hown hopen hnew =>
    exact hafter.addRecord hl hfree (C.known_of_own hafter.valid hown)
      (fun _ => ⟨hroot hown, hopen, hnew⟩) (fun g hg => (Option.some.inj hg).symm) host root
  | found hafter hown hopen =>
    obtain ⟨id, record, hused, -⟩ := hafter.exists_pooled?_of_isOpen hown hopen
    rw [hroot hown, hfree] at hused
    cases hused
  | foreign _ hafter hknown hnot =>
    exact hafter.addRecord hl hfree hknown (fun hown => absurd hown hnot) (fun g hg => by cases hg)
      host root

end Requested

/-- An acquisition conserves the filesystems: what it opens gets a record or is closed again, and
what it finds open has a record already. -/
lemma Conserved.acquireFrom {st : σ × List Event} (h : Conserved C none p st) (hl : Linked p)
    (other : ProviderId) (input : Text) (uri : Url) :
    Conserved C none (p.acquireFrom B.logged other input uri st).2.1
      (p.acquireFrom B.logged other input uri st).2.2 := by
  have hrequested := h.requested other input uri
  have hattempted := attempted_acquireFrom B.logged other input uri p st
  generalize p.acquireFrom B.logged other input uri st = out at hattempted ⊢
  cases hattempted with
  | unopened hrequest =>
    rw [hrequest] at hrequested
    cases hrequested with
    | refused hafter => exact hafter
  | unshared hrequest hused hanswer =>
    rw [hrequest] at hrequested
    exact (hrequested.closeSpare hused).of_resource hanswer
  | shared hrequest hused hanswer =>
    rw [hrequest] at hrequested
    exact ((hrequested.closeSpare hused).of_resource hanswer).share _ _
  | shut hrequest _ hclosed =>
    rw [hrequest] at hrequested
    exact hrequested.of_not_isOpen hclosed
  | unmounted hrequest _ _ hanswer =>
    rw [hrequest] at hrequested
    exact (hrequested.resource hanswer).1.close
  | added hrequest hfree _ hanswer =>
    rw [hrequest] at hrequested
    obtain ⟨hbehind, hroot⟩ := hrequested.resource hanswer
    exact hbehind.addRecord hl hfree hroot _ _

/-! ## Runs -/

lemma Conserved.giveBack {st : σ × List Event} (h : Conserved C none p st) (id : HandleId)
    (record : RecordId) : Conserved C none (p.giveBack id record) st :=
  h.of_sameRecords (SameRecords.modifyRecord (p.setHandle id .released)
    (f := MountRecord.lower) (fun _ => rfl) MountRecord.lower_key record)
    fun j => isPooled_giveBack p record j id

/-- A release conserves the filesystems. -/
lemma Conserved.release {st : σ × List Event} (h : Conserved C none p st) (hl : Linked p)
    (id : HandleId) :
    Conserved C none (p.release B.logged id st).1 (p.release B.logged id st).2 := by
  have hreleased := released_release B.logged id p st
  generalize p.release B.logged id st = out at hreleased ⊢
  cases hreleased with
  | unmarked _ => exact h
  | dropped _ _ _ => exact h.of_sameRecords (fun _ => rfl) fun _ => rfl
  | lowered _ _ _ _ _ => exact h.giveBack id _
  | @retired handle record _ _ hp hr _ =>
    have hp' : (p.giveBack id handle.record).isPooled handle.record = true := by
      rw [isPooled_giveBack, hp]
    have hunpool := (h.giveBack id handle.record).unpool (hl.giveBack id handle.record) hp'
      (record?_giveBack_self hr id)
    exact hunpool

/-- An eviction conserves the filesystems. -/
lemma Conserved.evict {st : σ × List Event} (h : Conserved C none p st) (hl : Linked p)
    (id : RecordId) :
    Conserved C none (p.evict B.logged id st).2.1 (p.evict B.logged id st).2.2 := by
  have hevicted := evicted_evict B.logged id p st
  generalize p.evict B.logged id st = out at hevicted ⊢
  cases hevicted with
  | absent _ => exact h
  | retired hp hr => exact h.unpool hl hp hr

/-- Along a run, nobody but the pool and its providers opens or closes a filesystem of the
provider. -/
def LeftAlone (C : Custody B provider) : List (Turn σ) → Pool ρ × σ → Prop
  | [], _ => True
  | turn :: turns, st =>
    (∀ change, turn = .elsewhere change → C.Keeps B st.2 (change st.2)) ∧
      LeftAlone C turns (step B turn st)

lemma leftAlone_of_notMem {turns : List (Turn σ)} (h : ∀ change, .elsewhere change ∉ turns)
    (st : Pool ρ × σ) : LeftAlone C turns st := by
  induction turns generalizing st with
  | nil => trivial
  | cons turn turns ih =>
    refine ⟨fun change heq => ?_, ih (fun change hin => h change (List.mem_cons_of_mem _ hin)) _⟩
    exact absurd (heq ▸ List.mem_cons_self) (h change)

/-- Every turn conserves the filesystems. -/
theorem Conserved.step {st : Pool ρ × σ × List Event} (h : Conserved C none st.1 st.2)
    (hl : Linked st.1) (turn : Turn σ)
    (hturn : ∀ change, turn = .elsewhere change → C.Keeps B st.2.1 (change st.2.1)) :
    Conserved C none (Pool.step B.logged turn.logged st).1
      (Pool.step B.logged turn.logged st).2 := by
  obtain ⟨p, s, log⟩ := st
  cases turn with
  | acquire other input uri => exact h.acquireFrom hl other input uri
  | mark id =>
    change Conserved C none (p.mark id).2 (s, log)
    rcases p.mark_eq_or id with hsame | ⟨handle, -, -, hq⟩
    · rw [hsame]
      exact h
    · rw [hq]
      exact h.of_sameRecords (fun _ => rfl) fun _ => rfl
  | release id => exact h.release hl id
  | evict id => exact h.evict hl id
  | register schemes other =>
    obtain ⟨registry, hq⟩ := exists_registry_eq schemes other p
    change Conserved C none ((p.registerProvider schemes other).toOption.getD p) (s, log)
    rw [hq]
    exact h.of_sameRecords (fun _ => rfl) fun _ => rfl
  | navigate id entry =>
    rcases step_navigate B.logged id entry p (s, log) with hsame | ⟨f, uri, hasked⟩
    · rw [Turn.logged, hsame]
      exact h
    · rw [Turn.logged, hasked]
      exact h.resource f uri
  | elsewhere change => exact h.keeps (hturn change rfl)

/-- Every run conserves the filesystems. -/
theorem Conserved.run {turns : List (Turn σ)} {st : Pool ρ × σ × List Event}
    (h : Conserved C none st.1 st.2) (hb : Balanced st.1)
    (hleft : LeftAlone C turns (unlogged st)) :
    Conserved C none (Pool.run B.logged (turns.map Turn.logged) st).1
      (Pool.run B.logged (turns.map Turn.logged) st).2 := by
  induction turns generalizing st with
  | nil => exact h
  | cons turn turns ih =>
    obtain ⟨hturn, hrest⟩ := hleft
    rw [← step_logged] at hrest
    exact ih (h.step hb.toLinked turn hturn)
      (hb.of_change (step_change B.logged turn.logged st)) hrest

/-- A pool is made before its provider opens a filesystem. -/
lemma conserved_start (config : PoolConfig) (registry : Registry) (hvalid : C.valid s)
    (hnone : ∀ f, ¬C.own f s) : Conserved C none (start config registry : Pool ρ) (s, []) where
  valid := hvalid
  known hr := by cases hr
  keyed hr := by cases hr
  unique hr := by cases hr
  isOpen_eq hr := by cases hr
  covered hown := absurd hown (hnone _)
  opened_iff f := iff_of_false (by simp) (hnone f)
  closings hown := absurd hown (hnone _)
  unclosed _ := by simp

/-! ## Where records come from -/

/-- All records are for filesystems that the provider has opened. -/
def Sole (provider : ProviderId) (st : Pool ρ × σ × List Event) : Prop :=
  ∀ id record, st.1.record? id = some record → Event.opened provider record.fs ∈ st.2.2

/-- What the provider gives was opened by it. -/
lemma Conserved.opened_of_given {st : σ × List Event} (h : Conserved C none p st) {input : Text}
    {uri key : Url} (hgiven : Given B.logged provider input uri st f key) :
    Event.opened provider f ∈ (B.logged.request provider input uri st).2.2 := by
  obtain ⟨opened, st₁, hrequest, -⟩ := hgiven
  have hrequested := h.requested provider input uri
  rw [hrequest] at hrequested ⊢
  cases hrequested with
  | made hafter hown _ _ => exact (hafter.opened_iff f).mpr hown
  | found hafter hown _ => exact (hafter.opened_iff f).mpr hown
  | foreign hne _ _ _ => exact absurd rfl hne

/-- A turn that asks no other provider makes records for filesystems of this one only. -/
lemma Sole.step {st : Pool ρ × σ × List Event} (h : Conserved C none st.1 st.2)
    (hs : Sole provider st) {turn : Turn σ}
    (hturn : ∀ other input uri, turn = .acquire other input uri → other = provider) :
    Sole provider (Pool.step B.logged turn.logged st) := by
  intro id record hr
  obtain ⟨p, st⟩ := st
  cases hold : p.record? id with
  | some old =>
    obtain ⟨new, hnew, hfs⟩ := exists_record?_of_change (step_change B.logged turn.logged (p, st)) hold
    obtain rfl : record = new := Option.some.inj (hr.symm.trans hnew)
    rw [hfs]
    exact mem_log_step (hs id old hold) turn
  | none =>
    obtain ⟨other, input, uri, f, key, hacquire, hgiven, rfl⟩ := exists_acquire_of_step hr hold
    cases turn with
    | acquire other' input' uri' =>
      cases hacquire
      obtain rfl := hturn other input uri rfl
      exact mem_log_acquireFrom (h.opened_of_given hgiven) p
    | _ => cases hacquire

/-- Where no other provider is asked all records are for filesystems of this one. -/
lemma Sole.run {turns : List (Turn σ)} {st : Pool ρ × σ × List Event}
    (h : Conserved C none st.1 st.2) (hb : Balanced st.1)
    (hleft : LeftAlone C turns (unlogged st)) (hs : Sole provider st)
    (hsole : ∀ other input uri, .acquire other input uri ∈ turns → other = provider) :
    Sole provider (Pool.run B.logged (turns.map Turn.logged) st) := by
  induction turns generalizing st with
  | nil => exact hs
  | cons turn turns ih =>
    obtain ⟨hturn, hrest⟩ := hleft
    rw [← step_logged] at hrest
    refine ih (h.step hb.toLinked turn hturn)
      (hb.of_change (step_change B.logged turn.logged st)) hrest (hs.step h ?_) ?_
    · exact fun other input uri heq => hsole other input uri (heq ▸ List.mem_cons_self)
    · exact fun other input uri hin => hsole other input uri (List.mem_cons_of_mem _ hin)

/-! ## From the first acquisition to the last release -/

/-- The mount that an acquisition grants is pooled under the key of the filesystem given for it. -/
lemma exists_pooled_of_granted {p : Pool ρ} (hl : Linked p) {other : ProviderId} {input : Text}
    {uri : Url} {number : HandleId}
    (hgranted : (p.acquireFrom B other input uri s).1 = .ok number) :
    ∃ f key handle record, Given B other input uri s f key ∧
      (p.acquireFrom B other input uri s).2.1.handle? number = some handle ∧
      (p.acquireFrom B other input uri s).2.1.record? handle.record = some record ∧
      (p.acquireFrom B other input uri s).2.1.isPooled handle.record = true ∧
      record.key.text = key.text := by
  have hacquired := acquired_acquireFrom B other input uri p s
  rw [hgranted] at hacquired
  generalize (p.acquireFrom B other input uri s).2.1 = q at hacquired ⊢
  cases hacquired with
  | @shared f key id record root hgiven hp =>
    obtain ⟨hlook, hr⟩ := pooled?_eq_some_iff.mp hp
    obtain ⟨same, hsame, hkey⟩ := hl.keyed hlook
    obtain rfl : record = same := Option.some.inj (hr.symm.trans hsame)
    refine ⟨f, key, ⟨id, root, .live⟩, { record with references := record.references + 1 },
      hgiven, List.getElem?_concat_length, ?_, ?_, hkey⟩
    · rw [record?_share, if_pos rfl, hr]
      rfl
    · rw [isPooled_share]
      exact hl.isPooled_of_pooled? hp
  | @added f key host root hgiven hfree =>
    refine ⟨f, key, ⟨p.records.length, root, .live⟩, MountRecord.fresh host key f,
      hgiven, List.getElem?_concat_length, ?_, ?_, rfl⟩
    · rw [record?_addRecord, if_pos rfl]
    · rw [isPooled_addRecord (hl.lookup_eq_none hfree), if_pos rfl]

/-- Under one key there is one filesystem that is open, that of the pooled record. -/
lemma Conserved.eq_of_key {st : σ × List Event} (h : Conserved C none p st) {id : RecordId}
    {record : MountRecord} (hr : p.record? id = some record) (hp : p.isPooled id = true)
    (hown : C.own f st.1) (hopen : B.isOpen f st.1 = true)
    (hkey : (B.rootUri f st.1).text = record.key.text) : f = record.fs := by
  obtain ⟨s, log⟩ := st
  obtain ⟨other, same, hpooled, rfl⟩ := h.exists_pooled?_of_isOpen hown hopen
  obtain ⟨hlook, hsame⟩ := pooled?_eq_some_iff.mp hpooled
  obtain ⟨record', hr', hlook'⟩ := (isPooled_iff p id).mp hp
  obtain rfl : record = record' := Option.some.inj (hr.symm.trans hr')
  rw [hkey, hlook'] at hlook
  obtain rfl : id = other := Option.some.inj hlook
  rw [Option.some.inj (hsame.symm.trans hr)]

/-- The filesystem of a record is open as long as the record is pooled, and closed once when it is
not any more. -/
lemma Conserved.closings_eq {st : σ × List Event} (h : Conserved C none p st) {id : RecordId}
    {record : MountRecord} (hr : p.record? id = some record) (hown : C.own record.fs st.1) :
    B.isOpen record.fs st.1 = p.isPooled id ∧
      st.2.count (.closed record.fs) = if p.isPooled id = true then 0 else 1 := by
  have hopen := h.isOpen_eq hr hown
  refine ⟨hopen, ?_⟩
  rw [h.closings hown, hopen]

/-- The filesystem of a pooled record is followed over a run. It is open until the record is evicted
or the last handle on it is released, and is closed once then. -/
lemma Conserved.closings_run {later : List (Turn σ)} {st : Pool ρ × σ × List Event}
    (h : Conserved C none st.1 st.2) (hb : Balanced st.1)
    (hleft : LeftAlone C later (unlogged st)) {id : RecordId} {record : MountRecord}
    (hr : st.1.record? id = some record) (hp : st.1.isPooled id = true)
    (hown : C.own record.fs st.2.1) :
    let behind := Pool.run B.logged (later.map Turn.logged) st
    let inUse := .evict id ∉ later ∧ 0 < behind.1.holders id
    (inUse → B.isOpen record.fs behind.2.1 = true ∧
      behind.2.2.count (.closed record.fs) = 0) ∧
    (¬inUse → B.isOpen record.fs behind.2.1 = false ∧
      behind.2.2.count (.closed record.fs) = 1) := by
  intro behind inUse
  have hafter : Conserved C none behind.1 behind.2 := h.run hb hleft
  obtain ⟨new, hnew, hfs⟩ := exists_record?_of_run B.logged (later.map Turn.logged) hr
  have hown' : C.own new.fs behind.2.1 := by
    rw [hfs]
    exact (hafter.opened_iff _).mp (mem_log_run ((h.opened_iff _).mpr hown) later)
  obtain ⟨hopen, hcount⟩ := hafter.closings_eq hnew hown'
  rw [hfs] at hopen hcount
  rw [hopen, hcount]
  have hpooled : behind.1.isPooled id = true ↔ inUse := by
    have hplain : behind.1 = (Pool.run B later (unlogged st)).1 :=
      congrArg Prod.fst (run_logged B later st)
    have hplainPooled : (unlogged st).1.isPooled id = true := hp
    have hiff := isPooled_run_iff B hb hplainPooled later
    rw [← hplain] at hiff
    exact hiff
  constructor
  · intro huse
    rw [hpooled.mpr huse]
    exact ⟨rfl, rfl⟩
  · intro hout
    have hgone : behind.1.isPooled id = false := by
      rw [Bool.eq_false_iff]
      exact fun hp' => hout (hpooled.mp hp')
    rw [hgone]
    exact ⟨rfl, rfl⟩

/-- Let a provider keep the contract `Custody` and have opened nothing yet when a pool is made, and
let nobody but the pool and its providers open or close a filesystem of the provider. Behind every
run of the pool, over which a log is kept, the following holds of the filesystems that the provider
has opened.

* If no other provider was asked, the filesystem of every record is one of them.
* The filesystem of a record is open exactly if the record is pooled, has the record's key as its
  root address, and is that of no other record.
* Each is that of a pooled record or is not open, and it was closed once if it is not open and never
  if it is.
* A granted mount is pooled under the key of the filesystem that was given for it, and two pooled
  records are not under one key.
* If a record is pooled no other open filesystem has its key. The filesystem of the record stays
  open until the record is evicted or the last handle on it is released, and is closed once then. -/
theorem filesystems_conserved (C : Custody B provider) (config : PoolConfig) (registry : Registry)
    {s₀ : σ} (hvalid : C.valid s₀) (hnone : ∀ f, ¬C.own f s₀) (turns : List (Turn σ))
    (hleft : LeftAlone C turns ((start config registry : Pool ρ), s₀)) :
    let st := Pool.run B.logged (turns.map Turn.logged) (start config registry, s₀, [])
    let opened := fun f => Event.opened provider f ∈ st.2.2
    unlogged st = Pool.run B turns (start config registry, s₀) ∧
    ((∀ other input uri, .acquire other input uri ∈ turns → other = provider) →
      ∀ id record, st.1.record? id = some record → opened record.fs) ∧
    (∀ id record, st.1.record? id = some record → opened record.fs →
      B.isOpen record.fs st.2.1 = st.1.isPooled id ∧ B.rootUri record.fs st.2.1 = record.key ∧
      ∀ other same, st.1.record? other = some same → same.fs = record.fs → other = id) ∧
    (∀ f, opened f →
      ((∃ id record, st.1.record? id = some record ∧ st.1.isPooled id = true ∧ record.fs = f) ∨
        B.isOpen f st.2.1 = false) ∧
      st.2.2.count (.closed f) = if B.isOpen f st.2.1 then 0 else 1) ∧
    (∀ input uri number,
      let behind := st.1.acquireFrom B provider input uri st.2.1
      behind.1 = .ok number →
      ∃ f key handle record, Given B provider input uri st.2.1 f key ∧
        behind.2.1.handle? number = some handle ∧
        behind.2.1.record? handle.record = some record ∧
        behind.2.1.isPooled handle.record = true ∧ record.key.text = key.text) ∧
    (∀ i j a b, st.1.record? i = some a → st.1.isPooled i = true → st.1.record? j = some b →
      st.1.isPooled j = true → a.key.text = b.key.text → i = j) ∧
    (∀ id record, st.1.record? id = some record → opened record.fs → st.1.isPooled id = true →
      (∀ f, opened f → B.isOpen f st.2.1 = true →
        (B.rootUri f st.2.1).text = record.key.text → f = record.fs) ∧
      ∀ later, LeftAlone C later (unlogged st) →
        let behind := Pool.run B.logged (later.map Turn.logged) st
        let inUse := .evict id ∉ later ∧ 0 < behind.1.holders id
        (inUse → B.isOpen record.fs behind.2.1 = true ∧
          behind.2.2.count (.closed record.fs) = 0) ∧
        (¬inUse → B.isOpen record.fs behind.2.1 = false ∧
          behind.2.2.count (.closed record.fs) = 1)) := by
  intro st opened
  have hstart : Conserved C none (start config registry : Pool ρ) (s₀, []) :=
    conserved_start config registry hvalid hnone
  have hempty : Balanced (start config registry : Pool ρ) := balanced_start config registry
  have h : Conserved C none st.1 st.2 := hstart.run hempty hleft
  have hb : Balanced st.1 := balanced_run B.logged (turns.map Turn.logged) hempty
  have hown : ∀ {f}, opened f → C.own f st.2.1 := fun {f} hf => (h.opened_iff f).mp hf
  refine ⟨run_logged B turns _, ?_, ?_, ?_, ?_, ?_, ?_⟩
  · intro hsole
    have hnew : Sole provider ((start config registry : Pool ρ), s₀, ([] : List Event)) := by
      intro id record hr
      cases hr
    exact Sole.run hstart hempty hleft hnew hsole
  · intro id record hr hf
    refine ⟨h.isOpen_eq hr (hown hf), h.keyed hr (hown hf), fun other same hsame hfs => ?_⟩
    exact (h.unique hr hsame (hown hf) hfs.symm).symm
  · intro f hf
    refine ⟨?_, h.closings (hown hf)⟩
    cases hopen : B.isOpen f st.2.1 with
    | false => exact .inr rfl
    | true =>
      obtain ⟨id, record, hp, hfs⟩ := h.exists_pooled?_of_isOpen (hown hf) hopen
      exact .inl ⟨id, record, (pooled?_eq_some_iff.mp hp).2, hb.isPooled_of_pooled? hp, hfs⟩
  · intro input uri number behind hgranted
    exact exists_pooled_of_granted hb.toLinked hgranted
  · exact fun i j a b ha hi hr hj hkey => eq_of_isPooled ha hi hr hj hkey
  · intro id record hr hf hp
    refine ⟨fun f hopened hopen hkey => h.eq_of_key hr hp (hown hopened) hopen hkey, ?_⟩
    exact fun later hlater => h.closings_run hb hlater hr hp (hown hf)

end Invariant

/-! ### An archive that is mounted twice -/

/-- Two acquisitions of the same archive. -/
def acquireTwice : List (Turn World) :=
  [.acquire 0 sampleRoot.text sampleRoot, .acquire 0 sampleRoot.text sampleRoot]

/-- A pool that has mounted the archive twice, with the log. -/
def sampleShared : Pool ProvidedResource × World × List Event :=
  run World.backend.logged (acquireTwice.map Turn.logged) (start {} sampleRegistry, sampleWorld, [])

/-- The first handle is closed. -/
def closeFirst : List (Turn World) := [.mark 0, .release 0]

/-- Both handles are closed. -/
def closeBoth : List (Turn World) := closeFirst ++ [.mark 1, .release 1]

/-- The archive that is mounted twice is opened once. It is open while one of the two handles is
left, and closed once behind the release of both. -/
theorem filesystems_conserved_of_sampleWorld :
    ∃ record, sampleShared.1.record? 0 = some record ∧
      sampleShared.2.2 = [.opened 0 record.fs] ∧
      (let behind := run World.backend.logged (closeFirst.map Turn.logged) sampleShared
       World.backend.isOpen record.fs behind.2.1 = true ∧
        behind.2.2.count (.closed record.fs) = 0) ∧
      let behind := run World.backend.logged (closeBoth.map Turn.logged) sampleShared
      World.backend.isOpen record.fs behind.2.1 = false ∧
        behind.2.2.count (.closed record.fs) = 1 := by
  have hvalid : World.archiveCustody.valid sampleWorld :=
    ⟨.ofSchemes ["jar".toList] {}, rfl, fun pair hpair => by cases hpair⟩
  have hnone : ∀ f, ¬World.archiveCustody.own f sampleWorld := by
    intro f hown
    cases hown
  have hleft : ∀ {turns}, turns = acquireTwice ∨ turns = closeFirst ∨ turns = closeBoth → ∀ st,
      LeftAlone World.archiveCustody turns st := by
    rintro turns (rfl | rfl | rfl)
    · exact leftAlone_of_notMem (by simp [acquireTwice])
    · exact leftAlone_of_notMem (by simp [closeFirst])
    · exact leftAlone_of_notMem (by simp [closeFirst, closeBoth])
  have hopened : (sampleShared.1.record? 0).map (fun record => [Event.opened 0 record.fs]) =
      some sampleShared.2.2 := by decide +kernel
  have hpooled : sampleShared.1.isPooled 0 = true := by decide +kernel
  have hfirst :
      0 < (run World.backend.logged (closeFirst.map Turn.logged) sampleShared).1.holders 0 := by
    decide +kernel
  have hboth :
      (run World.backend.logged (closeBoth.map Turn.logged) sampleShared).1.holders 0 = 0 := by
    decide +kernel
  obtain ⟨record, hr, hlog⟩ := Option.map_eq_some_iff.mp hopened
  have hconserved := filesystems_conserved World.archiveCustody {} sampleRegistry hvalid hnone
    acquireTwice (hleft (.inl rfl) _)
  dsimp only at hconserved
  rw [← sampleShared] at hconserved
  have hin : Event.opened 0 record.fs ∈ sampleShared.2.2 := by
    rw [← hlog]
    exact List.mem_singleton_self _
  obtain ⟨-, -, -, -, -, -, hrecord⟩ := hconserved
  have hfollowed := (hrecord 0 record hr hin hpooled).2
  have huse := (hfollowed closeFirst (hleft (.inr (.inl rfl)) _)).1
  have hout := (hfollowed closeBoth (hleft (.inr (.inr rfl)) _)).2
  have hheld : .evict 0 ∉ closeFirst ∧
      0 < (run World.backend.logged (closeFirst.map Turn.logged) sampleShared).1.holders 0 :=
    ⟨by simp [closeFirst], hfirst⟩
  refine ⟨record, hr, hlog.symm, huse hheld, hout fun hheld => ?_⟩
  rw [hboth] at hheld
  exact Nat.lt_irrefl 0 hheld.2

end Pool

end ContentMounts
