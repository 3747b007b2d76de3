import ContentMounts.Proofs.Pool.Change

/-!
# Keeping a log of filesystems

How often a filesystem was opened or closed cannot be told from the state that a run leads to. The
operations of a backend can write it down beside the state (`Backend.logged`): which filesystems a
provider has opened and which ones were closed. A run over the logging operations does to the pool
and to the providers what the run over the operations themselves does (`run_logged`).
-/

namespace ContentMounts

/-- What happens to a filesystem. -/
inductive Event where
  /-- A provider opens a new filesystem. -/
  | opened (provider : ProviderId) (fs : FileSystemId)
  /-- A filesystem is closed. -/
  | closed (fs : FileSystemId)
deriving DecidableEq, Repr

variable {σ ρ : Type}

/-- The operations of a backend with a log of the filesystems that are opened and closed, the last
event first. -/
def Backend.logged (B : Backend σ ρ) : Backend (σ × List Event) ρ where
  openNew provider uri st :=
    match B.openNew provider uri st.1 with
    | (.ok fs, s) => (.ok fs, s, .opened provider fs :: st.2)
    | (.error e, s) => (.error e, s, st.2)
  findOpen provider uri st :=
    ((B.findOpen provider uri st.1).1, (B.findOpen provider uri st.1).2, st.2)
  rootUri fs st := B.rootUri fs st.1
  isOpen fs st := B.isOpen fs st.1
  close fs st := (B.close fs st.1, .closed fs :: st.2)
  resource fs uri st := ((B.resource fs uri st.1).1, (B.resource fs uri st.1).2, st.2)
  uriOf := B.uriOf
  host st := B.host st.1

section

variable (B : Backend σ ρ) (fs : FileSystemId) (st : σ × List Event)

@[simp] lemma Backend.logged_rootUri : B.logged.rootUri fs st = B.rootUri fs st.1 := rfl

@[simp] lemma Backend.logged_isOpen : B.logged.isOpen fs st = B.isOpen fs st.1 := rfl

@[simp] lemma Backend.logged_close :
    B.logged.close fs st = (B.close fs st.1, .closed fs :: st.2) := rfl

@[simp] lemma Backend.logged_closeSpare (opened : Bool) (used : FileSystemId) :
    (B.logged.closeSpare opened used fs st).1 = B.closeSpare opened used fs st.1 := by
  unfold closeSpare
  split <;> rfl

@[simp] lemma Backend.logged_resource (uri : Url) : B.logged.resource fs uri st =
    ((B.resource fs uri st.1).1, (B.resource fs uri st.1).2, st.2) := rfl

end

/-- A turn that leaves the log alone. -/
def Turn.logged : Turn σ → Turn (σ × List Event)
  | .acquire provider input uri => .acquire provider input uri
  | .mark handle => .mark handle
  | .release handle => .release handle
  | .evict record => .evict record
  | .register schemes provider => .register schemes provider
  | .navigate handle entry => .navigate handle entry
  | .elsewhere change => .elsewhere fun st => (change st.1, st.2)

namespace Pool

/-- A pool and its providers without the log. -/
def unlogged (st : Pool ρ × σ × List Event) : Pool ρ × σ := (st.1, st.2.1)

variable (B : Backend σ ρ)

section

variable {B} {provider : ProviderId} {uri : Url} {s s' : σ}

lemma openNew_logged_ok {fs : FileSystemId} (h : B.openNew provider uri s = (.ok fs, s'))
    (log : List Event) :
    B.logged.openNew provider uri (s, log) = (.ok fs, s', .opened provider fs :: log) := by
  simp only [Backend.logged, h]

lemma openNew_logged_error {e : ProviderError} (h : B.openNew provider uri s = (.error e, s'))
    (log : List Event) : B.logged.openNew provider uri (s, log) = (.error e, s', log) := by
  simp only [Backend.logged, h]

end

/-- What was opened for a request, by its answer. -/
def openings (provider : ProviderId) : Except MountError (FileSystemId × Bool) → List Event
  | .ok (fs, true) => [.opened provider fs]
  | _ => []

/-- A request does the same with a log beside it, and writes down what was opened for it. -/
lemma request_logged (provider : ProviderId) (input : Text) (uri : Url) (s : σ)
    (log : List Event) :
    B.logged.request provider input uri (s, log) =
      ((B.request provider input uri s).1, (B.request provider input uri s).2,
        openings provider (B.request provider input uri s).1 ++ log) := by
  unfold Backend.request
  rcases hnew : B.openNew provider uri s with ⟨e | fs, s₁⟩
  · rw [openNew_logged_error hnew]
    cases e with
    | alreadyExists =>
      have hfind : B.logged.findOpen provider uri (s₁, log) =
        ((B.findOpen provider uri s₁).1, (B.findOpen provider uri s₁).2, log) := rfl
      dsimp only
      rw [hfind]
      rcases B.findOpen provider uri s₁ with ⟨e | fs, s₂⟩ <;> rfl
    | _ => rfl
  · rw [openNew_logged_ok hnew]
    rfl

section

variable {B} {provider : ProviderId} {input : Text} {uri : Url} {s : σ} {log : List Event}
  {st st' : σ × List Event}

/-- A request with a log beside it, read back. -/
lemma request_of_logged {answer : Except MountError (FileSystemId × Bool)}
    (h : B.logged.request provider input uri (s, log) = (answer, st)) :
    B.request provider input uri s = (answer, st.1) ∧ st.2 = openings provider answer ++ log := by
  rw [request_logged] at h
  cases h
  exact ⟨rfl, rfl⟩

/-- So is a question for a resource, which writes nothing down. -/
lemma resource_of_logged {fs : FileSystemId} {answer : Except ResourceError ρ}
    (h : B.logged.resource fs uri st = (answer, st')) :
    B.resource fs uri st.1 = (answer, st'.1) ∧ st'.2 = st.2 := by
  cases h
  exact ⟨rfl, rfl⟩

end

/-- The log has no part in what an acquisition does with the filesystem it was given. -/
lemma acquireFrom_logged (provider : ProviderId) (input : Text) (uri : Url) (p : Pool ρ)
    (st : σ × List Event) :
    (p.acquireFrom B.logged provider input uri st).1 =
        (p.acquireFrom B provider input uri st.1).1 ∧
      unlogged (p.acquireFrom B.logged provider input uri st).2 =
        (p.acquireFrom B provider input uri st.1).2 := by
  obtain ⟨s, log⟩ := st
  unfold acquireFrom
  rw [request_logged]
  rcases B.request provider input uri s with ⟨e | ⟨fs, opened⟩, s₁⟩
  · exact ⟨rfl, rfl⟩
  · generalize openings provider (.ok (fs, opened)) ++ log = behind
    dsimp only
    rw [Backend.logged_rootUri]
    cases p.pooled? (B.rootUri fs s₁) with
    | some found =>
      obtain ⟨id, record⟩ := found
      dsimp only
      rw [Backend.ite_close_eq, Backend.ite_close_eq, Backend.logged_resource,
        Backend.logged_closeSpare]
      generalize B.closeSpare opened record.fs fs s₁ = s₂
      rcases B.resource record.fs uri s₂ with ⟨e | root, s₃⟩ <;> exact ⟨rfl, rfl⟩
    | none =>
      dsimp only
      rw [Backend.logged_isOpen, Backend.logged_resource]
      split
      · exact ⟨rfl, rfl⟩
      · rcases B.resource fs uri s₁ with ⟨e | root, s₂⟩
        · cases opened <;> exact ⟨rfl, rfl⟩
        · exact ⟨rfl, rfl⟩

lemma retire_logged (id : RecordId) (p : Pool ρ) (st : σ × List Event) :
    unlogged (p.retire B.logged id st) = p.retire B id st.1 := by
  unfold retire
  cases p.record? id with
  | none => rfl
  | some record =>
    dsimp only
    cases record.defunct <;> rfl

lemma release_logged (id : HandleId) (p : Pool ρ) (st : σ × List Event) :
    unlogged (p.release B.logged id st) = p.release B id st.1 := by
  unfold release
  cases p.handle? id with
  | none => rfl
  | some handle =>
    dsimp only
    split
    · unfold dropReference
      split
      · dsimp only
        split
        · exact retire_logged B _ _ st
        · rfl
      · rfl
    · rfl

lemma evict_logged (id : RecordId) (p : Pool ρ) (st : σ × List Event) :
    unlogged (p.evict B.logged id st).2 = (p.evict B id st.1).2 := by
  unfold evict
  split
  · exact retire_logged B id p st
  · rfl

lemma entry_logged (p : Pool ρ) (h : MountHandle ρ) (entry : Text) (st : σ × List Event) :
    (p.entry B.logged h entry st).2.1 = (p.entry B h entry st.1).2 := by
  unfold Pool.entry
  split
  · rfl
  · rfl
  · rfl
  · next uri record _ _ _ =>
    rw [Backend.logged_resource]
    obtain ⟨answer, s⟩ := B.resource record.fs uri st.1
    cases answer <;> rfl

/-- A turn does the same with a log beside it. -/
theorem step_logged (turn : Turn σ) (st : Pool ρ × σ × List Event) :
    unlogged (step B.logged turn.logged st) = step B turn (unlogged st) := by
  obtain ⟨p, s, log⟩ := st
  cases turn with
  | acquire provider input uri => exact (acquireFrom_logged B provider input uri p (s, log)).2
  | mark id => rfl
  | release id => exact release_logged B id p (s, log)
  | evict id => exact evict_logged B id p (s, log)
  | register schemes provider => rfl
  | navigate id entry =>
    simp only [unlogged, step, Turn.logged]
    cases p.handle? id with
    | none => rfl
    | some handle => exact congrArg (Prod.mk p) (entry_logged B p handle entry (s, log))
  | elsewhere change => rfl

/-- A run does the same with a log beside it. -/
theorem run_logged (turns : List (Turn σ)) (st : Pool ρ × σ × List Event) :
    unlogged (run B.logged (turns.map Turn.logged) st) = run B turns (unlogged st) := by
  induction turns generalizing st with
  | nil => rfl
  | cons turn turns ih =>
    rw [List.map_cons, run_cons, run_cons, ih, step_logged]

/-! ## The log grows -/

section Grows

variable {B} {event : Event}

lemma mem_log_request {st : σ × List Event} (h : event ∈ st.2) (provider : ProviderId)
    (input : Text) (uri : Url) : event ∈ (B.logged.request provider input uri st).2.2 := by
  obtain ⟨s, log⟩ := st
  rw [request_logged]
  exact List.mem_append_right _ h

lemma mem_log_close {st : σ × List Event} (h : event ∈ st.2) (fs : FileSystemId) :
    event ∈ (B.logged.close fs st).2 :=
  List.mem_cons_of_mem _ h

lemma mem_log_closeSpare {st : σ × List Event} (h : event ∈ st.2) (opened : Bool)
    (used fs : FileSystemId) : event ∈ (B.logged.closeSpare opened used fs st).2 :=
  Backend.closeSpare_cases (P := fun st : σ × List Event => event ∈ st.2) h
    fun _ _ => mem_log_close h fs

lemma mem_log_resource {fs : FileSystemId} {uri : Url} {st st' : σ × List Event}
    {answer : Except ResourceError ρ} (h : event ∈ st.2)
    (hanswer : B.logged.resource fs uri st = (answer, st')) : event ∈ st'.2 := by
  rw [(resource_of_logged hanswer).2]
  exact h

/-- What was logged for a request is there behind the acquisition. -/
lemma mem_log_acquireFrom {provider : ProviderId} {input : Text} {uri : Url}
    {st : σ × List Event} (h : event ∈ (B.logged.request provider input uri st).2.2)
    (p : Pool ρ) : event ∈ (p.acquireFrom B.logged provider input uri st).2.2.2 := by
  have hattempted := attempted_acquireFrom B.logged provider input uri p st
  generalize p.acquireFrom B.logged provider input uri st = out at hattempted ⊢
  cases hattempted with
  | unopened hrequest =>
    rw [hrequest] at h
    exact h
  | unshared hrequest _ hanswer =>
    rw [hrequest] at h
    exact mem_log_resource (mem_log_closeSpare h _ _ _) hanswer
  | shared hrequest _ hanswer =>
    rw [hrequest] at h
    exact mem_log_resource (mem_log_closeSpare h _ _ _) hanswer
  | shut hrequest _ _ =>
    rw [hrequest] at h
    exact h
  | unmounted hrequest _ _ hanswer =>
    rw [hrequest] at h
    have hbehind := mem_log_resource h hanswer
    dsimp only
    split
    · exact mem_log_close hbehind _
    · exact hbehind
  | added hrequest _ _ hanswer =>
    rw [hrequest] at h
    exact mem_log_resource h hanswer

/-- Whether or not a record is closed when it is retired, the log stays. -/
lemma mem_log_retire {st : σ × List Event} (h : event ∈ st.2) (record : MountRecord) :
    event ∈ (if record.defunct then st else B.logged.close record.fs st).2 := by
  split
  · exact h
  · exact mem_log_close h record.fs

lemma mem_log_step {st : Pool ρ × σ × List Event} (h : event ∈ st.2.2) (turn : Turn σ) :
    event ∈ (step B.logged turn.logged st).2.2 := by
  obtain ⟨p, s, log⟩ := st
  cases turn with
  | acquire provider input uri => exact mem_log_acquireFrom (mem_log_request h _ _ _) p
  | mark id => exact h
  | release id =>
    have hreleased := released_release B.logged id p (s, log)
    change event ∈ (p.release B.logged id (s, log)).2.2
    generalize p.release B.logged id (s, log) = out at hreleased ⊢
    cases hreleased with
    | unmarked _ => exact h
    | dropped _ _ _ => exact h
    | lowered _ _ _ _ _ => exact h
    | retired _ _ _ _ _ => exact mem_log_retire h _
  | evict id =>
    have hevicted := evicted_evict B.logged id p (s, log)
    change event ∈ (p.evict B.logged id (s, log)).2.2.2
    generalize p.evict B.logged id (s, log) = out at hevicted ⊢
    cases hevicted with
    | absent _ => exact h
    | retired _ _ => exact mem_log_retire h _
  | register schemes provider => exact h
  | navigate id entry =>
    change event ∈ (step B.logged (.navigate id entry) (p, s, log)).2.2
    rcases step_navigate B.logged id entry p (s, log) with hsame | ⟨fs, uri, hasked⟩
    · rw [hsame]
      exact h
    · rw [hasked]
      exact h
  | elsewhere change => exact h

/-- What is in the log stays there. -/
lemma mem_log_run {st : Pool ρ × σ × List Event} (h : event ∈ st.2.2) (turns : List (Turn σ)) :
    event ∈ (run B.logged (turns.map Turn.logged) st).2.2 := by
  induction turns generalizing st with
  | nil => exact h
  | cons turn turns ih => exact ih (mem_log_step h turn)

end Grows

end Pool

end ContentMounts
