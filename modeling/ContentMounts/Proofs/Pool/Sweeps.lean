import Mathlib.Algebra.Ring.Nat
import Mathlib.Data.List.Nodup
import ContentMounts.Proofs.Pool.Staleness

/-!
# Sweeps under way

Any number of sweeps may be under way at once. With the lock held, a sweep copies the numbers of the
pooled records. Then it turns to these records one by one, in any order: it opens the file behind a
record and looks at its length and time, without the lock in both cases, and takes the lock again to
evict the record if the file has drifted. Between any two of these moves everything else may happen
as well: turns of the pool, moves of other sweeps, changes of the files.

`Sweeping` is a pool with the sweeps that were begun, and `Sweeping.run` carries out a list of moves
in their order. A sweep whose moves are not interrupted does what `Pool.sweep` does
(`exists_run_eq_sweep`). The records that leave the pool in a run are listed with the moves that
take them out (`departures`); a record is told by its number, so that a record made under the key of
an earlier one is another record. `evictions_safe` says what sweeps do to a pool in any run.
-/

namespace ContentMounts

/-- The number of a sweep among all that were begun. -/
abbrev SweepId := Nat

/-- How far a sweep has come with the record that it has turned to. -/
inductive Sweep.Stage where
  /-- It is done with the record, or has not turned to any yet. -/
  | between
  /-- It has opened the file behind the record. -/
  | opened (record : RecordId)
  /-- It has found that the file has drifted and has to evict the record. -/
  | drifted (record : RecordId)
deriving DecidableEq, Repr

/-- A sweep that was begun. -/
structure Sweep where
  /-- The copied records that it has not turned to yet. -/
  pending : List RecordId
  stage : Sweep.Stage
  report : SweepReport
deriving DecidableEq, Repr

/-- The report with one more record, by what was found out about it. Whether a record whose file has
drifted is evicted comes out later. -/
def SweepReport.note (report : SweepReport) : Finding → SweepReport
  | .skipped => { report with checked := report.checked + 1, skipped := report.skipped + 1 }
  | .unverified =>
    { report with checked := report.checked + 1, unverified := report.unverified + 1 }
  | .kept => { report with checked := report.checked + 1 }
  | .drifted => { report with checked := report.checked + 1 }

/-- The report with one more eviction, if there was one. -/
def SweepReport.noteEviction (report : SweepReport) (evicted : Bool) : SweepReport :=
  if evicted then { report with evicted := report.evicted + 1 } else report

/-- What is found out about a record when the file behind it is opened, unless that succeeds. -/
def MountRecord.findingAtOpening (h : Host) (r : MountRecord) : Option Finding :=
  match r.backing with
  | none => some .skipped
  | some b =>
    match h.stat b.path with
    | .ok _ => none
    | .error e => some (if e.isGone then .drifted else .unverified)

namespace Sweep

variable {ρ : Type}

/-- A sweep that begins with a copy of the pooled records. -/
def begun (p : Pool ρ) : Sweep := ⟨p.pooledIds, .between, .empty⟩

/-- The record that a sweep has to evict. -/
def target? (w : Sweep) : Option RecordId :=
  match w.stage with
  | .drifted id => some id
  | _ => none

/-- The sweep once something is found out about the record that it has turned to. -/
def settle (id : RecordId) (found : Finding) (w : Sweep) : Sweep :=
  { w with
    stage := if found = .drifted then .drifted id else .between
    report := w.report.note found }

/-- A sweep turns to one of its records and opens the file behind it. -/
def probe (p : Pool ρ) (h : Host) (id : RecordId) (w : Sweep) : Sweep :=
  if w.stage = .between ∧ id ∈ w.pending then
    let w := { w with pending := w.pending.erase id }
    match p.record? id with
    | none => w
    | some record =>
      match record.findingAtOpening h with
      | some found => w.settle id found
      | none => { w with stage := .opened id }
  else w

/-- A sweep looks at the file that it has opened. -/
def compare (p : Pool ρ) (h : Host) (w : Sweep) : Sweep :=
  match w.stage with
  | .opened id =>
    match p.record? id with
    | none => w
    | some record => w.settle id (record.finding h)
  | _ => w

/-- The sweep behind the eviction that it had to make. -/
def proceed (evicted : Bool) (w : Sweep) : Sweep :=
  { w with stage := .between, report := w.report.noteEviction evicted }

end Sweep

/-- Whether a turn is an eviction. -/
def Turn.isEviction {σ : Type} : Turn σ → Bool
  | .evict _ => true
  | _ => false

/-- What may happen next while sweeps are under way. -/
inductive Move (σ : Type) where
  /-- A turn of the pool. Evictions are made by sweeps alone. -/
  | turn (turn : Turn σ) (h : turn.isEviction = false)
  /-- A sweep begins. -/
  | start
  /-- A sweep turns to a record and opens the file behind it. -/
  | probe (sweep : SweepId) (record : RecordId)
  /-- A sweep looks at the file that it has opened. -/
  | compare (sweep : SweepId)
  /-- A sweep takes the lock to evict the record whose file it has found to have drifted. -/
  | evict (sweep : SweepId)

/-- Whether a move is an eviction. -/
def Move.isEviction {σ : Type} : Move σ → Bool
  | .evict _ => true
  | _ => false

/-- A pool and its providers, with the sweeps that were begun. -/
structure Sweeping (σ ρ : Type) where
  pool : Pool ρ
  providers : σ
  sweeps : List Sweep

namespace Sweeping

variable {σ ρ : Type}

/-- A pool as it is made, before anything is mounted and before any sweep. -/
def ofStart (config : PoolConfig) (registry : Registry) (s : σ) : Sweeping σ ρ :=
  ⟨Pool.start config registry, s, []⟩

/-- The sweep with a number does something without the lock. -/
def modifySweep (n : SweepId) (f : Sweep → Sweep) (st : Sweeping σ ρ) : Sweeping σ ρ :=
  { st with sweeps := st.sweeps.modify n f }

/-- The record that the sweep with a number has to evict. -/
def target? (st : Sweeping σ ρ) (n : SweepId) : Option RecordId :=
  (st.sweeps[n]?).bind Sweep.target?

/-- The state behind one move. -/
def step (B : Backend σ ρ) : Move σ → Sweeping σ ρ → Sweeping σ ρ
  | .turn turn _, st =>
    let (p, s) := Pool.step B turn (st.pool, st.providers)
    { st with pool := p, providers := s }
  | .start, st => { st with sweeps := st.sweeps ++ [Sweep.begun st.pool] }
  | .probe n id, st => st.modifySweep n (Sweep.probe st.pool (B.host st.providers) id)
  | .compare n, st => st.modifySweep n (Sweep.compare st.pool (B.host st.providers))
  | .evict n, st =>
    match st.target? n with
    | none => st
    | some id =>
      let (evicted, p, s) := st.pool.evict B id st.providers
      { st with pool := p, providers := s }.modifySweep n (Sweep.proceed evicted)

/-- The state behind a list of moves. -/
def run (B : Backend σ ρ) (moves : List (Move σ)) (st : Sweeping σ ρ) : Sweeping σ ρ :=
  moves.foldl (fun st move => step B move st) st

@[simp] lemma run_nil (B : Backend σ ρ) (st : Sweeping σ ρ) : run B [] st = st := rfl

@[simp] lemma run_cons (B : Backend σ ρ) (move : Move σ) (moves : List (Move σ))
    (st : Sweeping σ ρ) : run B (move :: moves) st = run B moves (step B move st) := rfl

lemma run_append (B : Backend σ ρ) (moves later : List (Move σ)) (st : Sweeping σ ρ) :
    run B (moves ++ later) st = run B later (run B moves st) :=
  List.foldl_append

/-! ## A sweep by itself -/

/-- What is found out at the opening of a file is what looking at it would tell. -/
lemma finding_of_findingAtOpening {h : Host} {r : MountRecord} {found : Finding}
    (hfound : r.findingAtOpening h = some found) : r.finding h = found := by
  unfold MountRecord.findingAtOpening at hfound
  unfold MountRecord.finding FileAnswers.finding
  cases hb : r.backing with
  | none =>
    rw [hb] at hfound
    exact Option.some.inj hfound
  | some b =>
    rw [hb] at hfound
    dsimp only at hfound ⊢
    rw [FileAnswers.hasDrifted, Host.check_answers]
    unfold Host.snapshot
    cases hstat : h.stat b.path with
    | ok n =>
      rw [hstat] at hfound
      cases hfound
    | error e =>
      rw [hstat] at hfound
      rw [← Option.some.inj hfound, Except.map]
      dsimp only
      cases e.isGone <;> rfl

section Last

variable (B : Backend σ ρ) (p : Pool ρ) (s : σ) (sweeps : List Sweep) (w : Sweep)

lemma modifySweep_concat (f : Sweep → Sweep) :
    modifySweep sweeps.length f ⟨p, s, sweeps ++ [w]⟩ = ⟨p, s, sweeps ++ [f w]⟩ :=
  congrArg (Sweeping.mk p s) (List.modifyTailIdx_add _ 0 sweeps [w])

/-- What the sweep that was begun last finds out about a record without the lock. -/
lemma run_looks (id : RecordId) :
    run B [.probe sweeps.length id, .compare sweeps.length] ⟨p, s, sweeps ++ [w]⟩ =
      ⟨p, s, sweeps ++ [(w.probe p (B.host s) id).compare p (B.host s)]⟩ := by
  simp only [run_cons, run_nil, step, modifySweep_concat]

/-- The eviction that the sweep that was begun last has to make. -/
lemma step_evict_last :
    step B (.evict sweeps.length) ⟨p, s, sweeps ++ [w]⟩ =
      match w.target? with
      | none => ⟨p, s, sweeps ++ [w]⟩
      | some id =>
        ⟨(p.evict B id s).2.1, (p.evict B id s).2.2,
          sweeps ++ [w.proceed (p.evict B id s).1]⟩ := by
  have hlast : target? (⟨p, s, sweeps ++ [w]⟩ : Sweeping σ ρ) sweeps.length = w.target? := by
    rw [target?, List.getElem?_concat_length, Option.bind_some]
  rw [step, hlast]
  cases w.target? with
  | none => rfl
  | some id => exact modifySweep_concat _ _ sweeps w _

end Last

/-- A sweep that turns to a record and is not interrupted has found out about it what there is to
find out. -/
lemma compare_probe {p : Pool ρ} {h : Host} {id : RecordId} {record : MountRecord}
    (hr : p.record? id = some record) (rest : List RecordId) (report : SweepReport) :
    ((⟨id :: rest, .between, report⟩ : Sweep).probe p h id).compare p h =
      (⟨rest, .between, report⟩ : Sweep).settle id (record.finding h) := by
  have hpending : (⟨id :: rest, .between, report⟩ : Sweep).stage = .between ∧
      id ∈ (⟨id :: rest, .between, report⟩ : Sweep).pending := ⟨rfl, List.mem_cons_self⟩
  rw [Sweep.probe, if_pos hpending]
  simp only [List.erase_cons_head, hr]
  cases hfound : record.findingAtOpening h with
  | none => simp only [Sweep.compare, hr, Sweep.settle]
  | some found =>
    rw [finding_of_findingAtOpening hfound]
    cases found <;> rfl

/-- Three moves of a sweep that nothing comes between are the turn of a record in it. -/
lemma run_record (B : Backend σ ρ) (p : Pool ρ) (s : σ) (sweeps : List Sweep) (id : RecordId)
    (rest : List RecordId) (report : SweepReport) :
    run B [.probe sweeps.length id, .compare sweeps.length, .evict sweeps.length]
        ⟨p, s, sweeps ++ [⟨id :: rest, .between, report⟩]⟩ =
      ⟨(p.sweepRecord B.answers B id report s).2.1, (p.sweepRecord B.answers B id report s).2.2,
        sweeps ++ [⟨rest, .between, (p.sweepRecord B.answers B id report s).1⟩]⟩ := by
  have hsplit : ([.probe sweeps.length id, .compare sweeps.length, .evict sweeps.length] :
      List (Move σ)) = [.probe sweeps.length id, .compare sweeps.length] ++
        [.evict sweeps.length] := rfl
  rw [hsplit, run_append, run_looks, run_cons, run_nil, step_evict_last, Pool.sweepRecord]
  cases hr : p.record? id with
  | none => simp [Sweep.probe, hr, Sweep.compare, Sweep.target?]
  | some record =>
    rw [compare_probe hr]
    have hask : (B.answers s).finding record = record.finding (B.host s) := rfl
    dsimp only
    rw [hask]
    cases record.finding (B.host s) with
    | skipped => rfl
    | kept => rfl
    | unverified => rfl
    | drifted =>
      have htarget : ((⟨rest, .between, report⟩ : Sweep).settle id .drifted).target? = some id :=
        rfl
      rw [htarget]
      dsimp only
      obtain ⟨evicted, q, s'⟩ := p.evict B id s
      cases evicted <;> rfl

/-- A sweep that nothing comes between does what a sweep does. -/
theorem exists_run_eq_sweep (B : Backend σ ρ) (p : Pool ρ) (s : σ) (sweeps : List Sweep) :
    ∃ moves, run B moves ⟨p, s, sweeps⟩ =
      ⟨(p.sweep B s).2.1, (p.sweep B s).2.2, sweeps ++ [⟨[], .between, (p.sweep B s).1⟩]⟩ := by
  suffices h : ∀ (ids : List RecordId) (report : SweepReport) (p : Pool ρ) (s : σ),
      ∃ moves, run B moves ⟨p, s, sweeps ++ [⟨ids, .between, report⟩]⟩ =
        ⟨(Pool.sweepRecords B.answers B ids report p s).2.1,
          (Pool.sweepRecords B.answers B ids report p s).2.2,
          sweeps ++ [⟨[], .between, (Pool.sweepRecords B.answers B ids report p s).1⟩]⟩ by
    obtain ⟨moves, hmoves⟩ := h p.pooledIds .empty p s
    exact ⟨.start :: moves, hmoves⟩
  intro ids
  induction ids with
  | nil => exact fun report p s => ⟨[], rfl⟩
  | cons id rest ih =>
    intro report p s
    obtain ⟨moves, hmoves⟩ := ih (p.sweepRecord B.answers B id report s).1
      (p.sweepRecord B.answers B id report s).2.1 (p.sweepRecord B.answers B id report s).2.2
    refine ⟨[.probe sweeps.length id, .compare sweeps.length, .evict sweeps.length] ++ moves, ?_⟩
    rw [run_append, run_record]
    exact hmoves

/-! ## What is preserved -/

/-- A move changes the pool like a turn, or not at all. -/
lemma step_change (B : Backend σ ρ) (move : Move σ) (st : Sweeping σ ρ) :
    Pool.Change st.pool (step B move st).pool := by
  cases move with
  | turn turn h => exact Pool.step_change B turn (st.pool, st.providers)
  | start => exact .same _
  | probe n id => exact .same _
  | compare n => exact .same _
  | evict n =>
    rw [step]
    cases st.target? n with
    | none => exact .same _
    | some id => exact Pool.evict_change B id st.pool st.providers

variable {B : Backend σ ρ} {st : Sweeping σ ρ}

lemma balanced_run (moves : List (Move σ)) (h : Pool.Balanced st.pool) :
    Pool.Balanced (run B moves st).pool := by
  induction moves generalizing st with
  | nil => exact h
  | cons move moves ih => exact ih (h.of_change (step_change B move st))

/-- A record that has left the pool stays outside. -/
lemma frozen_run (moves : List (Move σ)) (h : Pool.Balanced st.pool) {id : RecordId}
    {record : MountRecord} (hr : st.pool.record? id = some record)
    (hout : st.pool.isPooled id = false) :
    (run B moves st).pool.record? id = some record ∧
      (run B moves st).pool.isPooled id = false := by
  induction moves generalizing st with
  | nil => exact ⟨hr, hout⟩
  | cons move moves ih =>
    obtain ⟨hr', hout'⟩ := Pool.frozen_of_change h (step_change B move st) hr hout
    exact ih (h.of_change (step_change B move st)) hr' hout'

/-- The file to watch for a record stays the one that it was made with. -/
lemma exists_backing_of_run (moves : List (Move σ)) {id : RecordId} {record : MountRecord}
    (hr : st.pool.record? id = some record) :
    ∃ new, (run B moves st).pool.record? id = some new ∧ new.backing = record.backing := by
  induction moves generalizing st record with
  | nil => exact ⟨record, hr, rfl⟩
  | cons move moves ih =>
    obtain ⟨references, defunct, hmid⟩ :=
      Pool.exists_recount_of_change (step_change B move st) hr
    obtain ⟨new, hnew, hbacking⟩ := ih hmid
    exact ⟨new, hnew, hbacking⟩

/-! ## Records that leave the pool -/

/-- The records of a pool that are pooled in it and not in another one. -/
def missing (p q : Pool ρ) : List RecordId :=
  (List.range p.records.length).filter fun id => p.isPooled id && !q.isPooled id

lemma mem_missing_iff {p q : Pool ρ} {id : RecordId} :
    id ∈ missing p q ↔ p.isPooled id = true ∧ q.isPooled id = false := by
  rw [missing, List.mem_filter, List.mem_range, Bool.and_eq_true, Bool.not_eq_true']
  refine and_iff_right_of_imp fun h => ?_
  obtain ⟨record, hr⟩ := Pool.exists_record_of_isPooled h.1
  exact (Pool.record?_isSome_iff p id).mp (Option.isSome_of_eq_some hr)

/-- Taking a pooled record out of the pool takes no other one out. -/
lemma missing_unpool {p : Pool ρ} {id : RecordId} {record : MountRecord}
    (hp : p.isPooled id = true) (hr : p.record? id = some record) :
    missing p (p.unpool id record.key) = [id] := by
  have hlt := (Pool.record?_isSome_iff p id).mp (Option.isSome_of_eq_some hr)
  have hkeep : ∀ j, (p.isPooled j && !(p.unpool id record.key).isPooled j) = (j == id) := by
    intro j
    rw [Pool.isPooled_unpool hp hr]
    by_cases hj : j = id
    · simp [hj, hp]
    · have hne : (j == id) = false := by simpa using hj
      rw [bne, hne]
      cases p.isPooled j <;> rfl
  unfold missing
  simp only [hkeep]
  rw [List.filter_beq, List.count_eq_one_of_mem List.nodup_range (List.mem_range.mpr hlt)]
  rfl

/-- An eviction takes the evicted record out of the pool and no other, if it was pooled. -/
lemma missing_evict (B : Backend σ ρ) (p : Pool ρ) (id : RecordId) (s : σ) :
    missing p (p.evict B id s).2.1 = if p.isPooled id then [id] else [] := by
  have hevicted := Pool.evicted_evict B id p s
  generalize p.evict B id s = out at hevicted ⊢
  cases hevicted with
  | absent hout => simp [missing, hout]
  | retired hp hr => rw [missing_unpool hp hr, hp, if_pos rfl]

/-- The records that leave the pool in a run, in their order, with the moves that take them out. -/
def departures (B : Backend σ ρ) : List (Move σ) → Sweeping σ ρ → List (Move σ × RecordId)
  | [], _ => []
  | move :: moves, st =>
    (missing st.pool (step B move st).pool).map (move, ·) ++ departures B moves (step B move st)

/-- What has left the pool does not leave it again. -/
lemma notMem_departures (moves : List (Move σ)) (h : Pool.Balanced st.pool) {id : RecordId}
    {record : MountRecord} (hr : st.pool.record? id = some record)
    (hout : st.pool.isPooled id = false) : id ∉ (departures B moves st).map (·.2) := by
  induction moves generalizing st with
  | nil => exact List.not_mem_nil
  | cons move moves ih =>
    obtain ⟨hr', hout'⟩ := Pool.frozen_of_change h (step_change B move st) hr hout
    rw [departures, List.map_append, List.mem_append, not_or]
    refine ⟨fun hmem => ?_, ih (h.of_change (step_change B move st)) hr' hout'⟩
    have hmissing : id ∈ missing st.pool (step B move st).pool := by simpa using hmem
    rw [(mem_missing_iff.mp hmissing).1] at hout
    cases hout

/-- A record leaves the pool at most once. -/
lemma nodup_departures (moves : List (Move σ)) (h : Pool.Balanced st.pool) :
    ((departures B moves st).map (·.2)).Nodup := by
  induction moves generalizing st with
  | nil => exact List.nodup_nil
  | cons move moves ih =>
    have hchange := step_change B move st
    have hnow : ((missing st.pool (step B move st).pool).map (move, ·)).map (·.2) =
        missing st.pool (step B move st).pool := by
      rw [List.map_map]
      exact List.map_id _
    rw [departures, List.map_append, hnow]
    refine List.Nodup.append (List.nodup_range.filter _) (ih (h.of_change hchange)) ?_
    intro id hmissing
    obtain ⟨hp, hout⟩ := mem_missing_iff.mp hmissing
    obtain ⟨record, hr⟩ := Pool.exists_record_of_isPooled hp
    obtain ⟨references, defunct, hnew⟩ := Pool.exists_recount_of_change hchange hr
    exact notMem_departures moves (h.of_change hchange) hnew hout

/-- What has left the pool is defunct when the run ends. -/
lemma isDefunct_of_mem_departures (moves : List (Move σ)) (h : Pool.Balanced st.pool) :
    ∀ pair ∈ departures B moves st, (run B moves st).pool.isDefunct pair.2 = true := by
  induction moves generalizing st with
  | nil => exact fun pair hmem => absurd hmem List.not_mem_nil
  | cons move moves ih =>
    intro pair hmem
    have hchange := step_change B move st
    have hafter := h.of_change hchange
    rw [departures, List.mem_append] at hmem
    rcases hmem with hnow | hlater
    · obtain ⟨id, hmissing, rfl⟩ := List.mem_map.mp hnow
      obtain ⟨hp, hout⟩ := mem_missing_iff.mp hmissing
      obtain ⟨record, hr⟩ := Pool.exists_record_of_isPooled hp
      obtain ⟨references, defunct, hnew⟩ := Pool.exists_recount_of_change hchange hr
      obtain ⟨hlast, hgone⟩ := frozen_run (B := B) moves hafter hnew hout
      rw [run_cons, Pool.isDefunct_iff (balanced_run moves hafter).toLinked,
        ← Pool.record?_isSome_iff]
      exact ⟨Option.isSome_of_eq_some hlast, hgone⟩
    · exact ih hafter pair hlater

/-! ## The counts of the reports -/

/-- The evictions that the sweeps report, taken together. -/
def reported (st : Sweeping σ ρ) : Nat := (st.sweeps.map (·.report.evicted)).sum

/-- A sum over a list where one element is changed. -/
lemma sum_map_modify {α : Type} (f : α → Nat) (g : α → α) {l : List α} {n : Nat} {a : α}
    (h : l[n]? = some a) : ((l.modify n g).map f).sum + f a = (l.map f).sum + f (g a) := by
  induction l generalizing n with
  | nil => simp at h
  | cons b rest ih =>
    cases n with
    | zero =>
      cases h
      simp only [List.modify_zero_cons, List.map_cons, List.sum_cons]
      omega
    | succ n =>
      have hrest := ih (n := n) (by simpa using h)
      simp only [List.modify_succ_cons, List.map_cons, List.sum_cons]
      omega

/-- What a sweep does without the lock does not concern its count of evictions. -/
lemma reported_modifySweep {f : Sweep → Sweep}
    (hf : ∀ w : Sweep, (f w).report.evicted = w.report.evicted) (n : SweepId) :
    (st.modifySweep n f).reported = st.reported := by
  unfold reported modifySweep
  cases hw : st.sweeps[n]? with
  | none => rw [List.modify_eq_self (List.getElem?_eq_none_iff.mp hw)]
  | some w =>
    have hsum := sum_map_modify (·.report.evicted) f hw
    rw [hf] at hsum
    exact Nat.add_right_cancel hsum

lemma evicted_settle (id : RecordId) (found : Finding) (w : Sweep) :
    (w.settle id found).report.evicted = w.report.evicted := by
  cases found <;> rfl

lemma evicted_probe (p : Pool ρ) (h : Host) (id : RecordId) (w : Sweep) :
    (w.probe p h id).report.evicted = w.report.evicted := by
  unfold Sweep.probe
  split
  · dsimp only
    split
    · rfl
    · split
      · exact evicted_settle id _ _
      · rfl
  · rfl

lemma evicted_compare (p : Pool ρ) (h : Host) (w : Sweep) :
    (w.compare p h).report.evicted = w.report.evicted := by
  unfold Sweep.compare
  split
  · split
    · rfl
    · exact evicted_settle _ _ w
  · rfl

/-- A sweep that has to evict a record reports the eviction if the record was pooled. -/
lemma reported_proceed (st : Sweeping σ ρ) {n : SweepId} {id : RecordId}
    (h : st.target? n = some id) (evicted : Bool) :
    (st.modifySweep n (Sweep.proceed evicted)).reported =
      st.reported + if evicted then 1 else 0 := by
  obtain ⟨w, hw, -⟩ := Option.bind_eq_some_iff.mp h
  have hsum := sum_map_modify (·.report.evicted) (Sweep.proceed evicted) hw
  unfold reported modifySweep
  cases evicted with
  | false =>
    have hsame : (w.proceed false).report.evicted = w.report.evicted := rfl
    rw [hsame] at hsum
    exact Nat.add_right_cancel hsum
  | true =>
    have hone : (w.proceed true).report.evicted = w.report.evicted + 1 := rfl
    rw [hone] at hsum
    dsimp only at hsum ⊢
    rw [if_pos rfl]
    omega

/-- A move adds as much to the reported evictions as it takes records out by evicting them. -/
lemma reported_step (B : Backend σ ρ) (move : Move σ) (st : Sweeping σ ρ) :
    (step B move st).reported = st.reported +
      if move.isEviction then (missing st.pool (step B move st).pool).length else 0 := by
  cases move with
  | turn turn h => rfl
  | start => simp [step, reported, Sweep.begun, SweepReport.empty, Move.isEviction]
  | probe n id => exact reported_modifySweep (evicted_probe _ _ id) n
  | compare n => exact reported_modifySweep (evicted_compare _ _) n
  | evict n =>
    have htrue : (Move.evict n : Move σ).isEviction = true := rfl
    rw [htrue, if_pos rfl, step]
    cases htarget : st.target? n with
    | none =>
      have hnone : missing st.pool st.pool = [] := by simp [missing]
      dsimp only
      rw [hnone]
      rfl
    | some id =>
      have hmissing := missing_evict B st.pool id st.providers
      have hevicted : (st.pool.evict B id st.providers).1 = st.pool.isPooled id := by
        unfold Pool.evict
        cases st.pool.isPooled id <;> rfl
      have hproceed := reported_proceed
        ⟨(st.pool.evict B id st.providers).2.1, (st.pool.evict B id st.providers).2.2, st.sweeps⟩
        htarget (st.pool.evict B id st.providers).1
      refine hproceed.trans (congrArg (st.reported + ·) ?_)
      refine Eq.trans ?_ (congrArg List.length hmissing).symm
      rw [hevicted]
      cases st.pool.isPooled id <;> rfl

/-- The sweeps report the records that were taken out by evicting them. -/
lemma reported_run (B : Backend σ ρ) (moves : List (Move σ)) (st : Sweeping σ ρ) :
    (run B moves st).reported =
      st.reported + (departures B moves st).countP (·.1.isEviction) := by
  induction moves generalizing st with
  | nil => rfl
  | cons move moves ih =>
    have hnow : ((missing st.pool (step B move st).pool).map (move, ·)).countP (·.1.isEviction) =
        if move.isEviction then (missing st.pool (step B move st).pool).length else 0 := by
      rw [List.countP_map]
      cases hmove : move.isEviction with
      | false => simp [Function.comp_def, hmove]
      | true => simp [Function.comp_def, hmove]
    rw [run_cons, ih, reported_step, departures, List.countP_append, hnow, Nat.add_assoc]

/-! ## What a sweep has found -/

/-- With a move that it makes in a state, a sweep finds that the file behind a record has drifted:
it opens the file, or looks at the file that it has opened. -/
structure FindsDrift (B : Backend σ ρ) (st : Sweeping σ ρ) (look : Move σ) (n : SweepId)
    (id : RecordId) (b : BackingFile) : Prop where
  looks : look = .probe n id ∨
    look = .compare n ∧ (st.sweeps[n]?).map (·.stage) = some (.opened id)
  backing : ∃ record, st.pool.record? id = some record ∧ record.backing = some b
  hasDrifted : b.hasDrifted (B.host st.providers) = .ok true

lemma exists_backing_of_finding {h : Host} {r : MountRecord} (hr : r.finding h = .drifted) :
    ∃ b, r.backing = some b ∧ b.hasDrifted h = .ok true := by
  unfold MountRecord.finding FileAnswers.finding at hr
  unfold BackingFile.hasDrifted
  cases hb : r.backing with
  | none =>
    rw [hb] at hr
    cases hr
  | some b =>
    rw [hb] at hr
    refine ⟨b, rfl, ?_⟩
    cases hdrift : h.answers.hasDrifted b with
    | error e =>
      simp only [hdrift] at hr
      cases hr
    | ok drifted =>
      cases drifted with
      | true => rfl
      | false =>
        simp only [hdrift] at hr
        cases hr

/-- A sweep that has settled what to do with a record has to evict it if its file has drifted. -/
lemma target?_settle {id other : RecordId} {found : Finding} {w : Sweep}
    (h : (w.settle id found).target? = some other) : id = other ∧ found = .drifted := by
  cases found with
  | drifted => exact ⟨Option.some.inj h, rfl⟩
  | _ => cases h

/-- A sweep that has to evict a record once it has turned to one had to do so before, or finds that
the file has drifted. -/
lemma target?_probe {p : Pool ρ} {h : Host} {id other : RecordId} {w : Sweep}
    (hw : (w.probe p h id).target? = some other) : w.target? = some other ∨
      id = other ∧ ∃ record, p.record? id = some record ∧ record.finding h = .drifted := by
  unfold Sweep.probe at hw
  split at hw
  · next hturn =>
    dsimp only at hw
    split at hw
    · exact .inl hw
    · next record hr =>
      split at hw
      · next found hfound =>
        obtain ⟨rfl, rfl⟩ := target?_settle hw
        exact .inr ⟨rfl, record, hr, finding_of_findingAtOpening hfound⟩
      · cases hw
  · exact .inl hw

lemma target?_compare {p : Pool ρ} {h : Host} {other : RecordId} {w : Sweep}
    (hw : (w.compare p h).target? = some other) : w.target? = some other ∨
      w.stage = .opened other ∧
        ∃ record, p.record? other = some record ∧ record.finding h = .drifted := by
  unfold Sweep.compare at hw
  split at hw
  · next id hstage =>
    split at hw
    · exact .inl hw
    · next record hr =>
      obtain ⟨rfl, hfound⟩ := target?_settle hw
      exact .inr ⟨hstage, record, hr, hfound⟩
  · exact .inl hw

/-- The record that a sweep has to evict once some sweep has done something without the lock. -/
lemma target?_modifySweep {f : Sweep → Sweep} {m n : SweepId} {id : RecordId}
    (h : (st.modifySweep m f).target? n = some id) :
    st.target? n = some id ∨ m = n ∧ ∃ w, st.sweeps[n]? = some w ∧ (f w).target? = some id := by
  rw [target?, modifySweep, List.getElem?_modify] at h
  obtain ⟨w', hw', htarget⟩ := Option.bind_eq_some_iff.mp h
  obtain ⟨w, hw, hf⟩ := Option.map_eq_some_iff.mp hw'
  by_cases hmn : m = n
  · rw [if_pos hmn] at hf
    exact .inr ⟨hmn, w, hw, hf ▸ htarget⟩
  · rw [if_neg hmn] at hf
    rw [target?, hw, Option.bind_some, hf]
    exact .inl htarget

/-- A sweep that has to evict a record behind a move had to do so before, or has just found that the
file behind the record has drifted. -/
lemma target?_step {move : Move σ} {n : SweepId} {id : RecordId}
    (h : (step B move st).target? n = some id) :
    st.target? n = some id ∨ ∃ b, FindsDrift B st move n id b := by
  cases move with
  | turn turn hturn => exact .inl h
  | start =>
    left
    obtain ⟨w, hw, htarget⟩ := Option.bind_eq_some_iff.mp h
    rw [step, List.getElem?_append] at hw
    split at hw
    · rw [target?, hw]
      exact htarget
    · obtain rfl : Sweep.begun st.pool = w := by
        simpa using List.mem_of_getElem? hw |> List.mem_singleton.mp |>.symm
      cases htarget
  | probe m i =>
    rcases target?_modifySweep h with hold | ⟨rfl, w, hw, htarget⟩
    · exact .inl hold
    · rcases target?_probe htarget with hold | ⟨rfl, record, hr, hfound⟩
      · rw [target?, hw]
        exact .inl hold
      · obtain ⟨b, hb, hdrift⟩ := exists_backing_of_finding hfound
        exact .inr ⟨b, .inl rfl, ⟨record, hr, hb⟩, hdrift⟩
  | compare m =>
    rcases target?_modifySweep h with hold | ⟨rfl, w, hw, htarget⟩
    · exact .inl hold
    · rcases target?_compare htarget with hold | ⟨hstage, record, hr, hfound⟩
      · rw [target?, hw]
        exact .inl hold
      · obtain ⟨b, hb, hdrift⟩ := exists_backing_of_finding hfound
        exact .inr ⟨b, .inr ⟨rfl, by rw [hw, Option.map_some, hstage]⟩, ⟨record, hr, hb⟩, hdrift⟩
  | evict m =>
    left
    rw [step] at h
    split at h
    · exact h
    · rcases target?_modifySweep h with hold | ⟨rfl, w, hw, htarget⟩
      · exact hold
      · cases htarget

/-- What a sweep has to evict is a record of which it has found earlier in the run that the file
behind it has drifted. -/
lemma exists_findsDrift_of_target? (moves : List (Move σ)) (hstart : st.sweeps = [])
    {n : SweepId} {id : RecordId} (h : (run B moves st).target? n = some id) :
    ∃ before look behind b, moves = before ++ look :: behind ∧
      FindsDrift B (run B before st) look n id b := by
  induction moves using List.reverseRecOn with
  | nil =>
    rw [run_nil, target?, hstart] at h
    cases h
  | append_singleton moves move ih =>
    rw [run_append, run_cons, run_nil] at h
    rcases target?_step h with hold | ⟨b, hfinds⟩
    · obtain ⟨before, look, behind, b, rfl, hfinds⟩ := ih hold
      exact ⟨before, look, behind ++ [move], b, by simp, hfinds⟩
    · exact ⟨moves, move, [], b, rfl, hfinds⟩

/-! ## Evictions are safe -/

/-- What a sweep takes out of the pool is the record that it has to evict, and the other records
stay as they are. -/
lemma target?_of_evicted {n : SweepId} {id : RecordId}
    (h : id ∈ missing st.pool (step B (.evict n) st).pool) : st.target? n = some id ∧
      ∀ other, other ≠ id →
        (step B (.evict n) st).pool.record? other = st.pool.record? other ∧
        (step B (.evict n) st).pool.isPooled other = st.pool.isPooled other := by
  obtain ⟨hp, hout⟩ := mem_missing_iff.mp h
  rw [step] at h hout ⊢
  cases htarget : st.target? n with
  | none =>
    rw [htarget] at hout
    rw [hp] at hout
    cases hout
  | some target =>
    simp only [htarget] at h ⊢
    change id ∈ missing st.pool (st.pool.evict B target st.providers).2.1 at h
    rw [missing_evict] at h
    split at h
    · next hpooled =>
      obtain rfl := List.mem_singleton.mp h
      refine ⟨rfl, fun other hne => ?_⟩
      obtain ⟨record, hr⟩ := Pool.exists_record_of_isPooled hpooled
      change (st.pool.evict B id st.providers).2.1.record? other = _ ∧
        (st.pool.evict B id st.providers).2.1.isPooled other = _
      have hbne : (other != id) = true := by simpa using hne
      rw [Pool.evict_eq B hpooled hr, Pool.record?_unpool, if_neg (Ne.symm hne),
        Pool.isPooled_unpool hpooled hr, hbne, Bool.and_true]
      exact ⟨rfl, rfl⟩
    · exact absurd h List.not_mem_nil

/-- Closing a handle on a record that is not pooled changes neither records nor what is pooled. -/
lemma records_close_of_not_isPooled (B : Backend σ ρ) {p : Pool ρ} (s : σ) {number : HandleId}
    {handle : MountHandle ρ} (hh : p.handle? number = some handle)
    (hout : p.isPooled handle.record = false) {turn : Turn σ}
    (hturn : turn = .mark number ∨ turn = .release number) :
    (Pool.step B turn (p, s)).1.records = p.records ∧
      (Pool.step B turn (p, s)).1.mounts = p.mounts ∧ (Pool.step B turn (p, s)).2 = s := by
  rcases hturn with rfl | rfl
  · rw [Pool.step, Pool.mark]
    split <;> exact ⟨rfl, rfl, rfl⟩
  · have hreleased := Pool.released_release B number p s
    rw [Pool.step]
    generalize p.release B number s = out at hreleased ⊢
    have hin : ∀ {other : MountHandle ρ}, p.handle? number = some other →
        p.isPooled other.record ≠ true := by
      intro other hother
      obtain rfl := Option.some.inj (hh.symm.trans hother)
      exact Bool.eq_false_iff.mp hout
    cases hreleased with
    | unmarked _ => exact ⟨rfl, rfl, rfl⟩
    | dropped _ _ _ => exact ⟨rfl, rfl, rfl⟩
    | lowered hother _ hp _ _ => exact absurd hp (hin hother)
    | retired hother _ hp _ _ => exact absurd hp (hin hother)

/-- Whatever comes between the moves of sweeps: a sweep takes no record out of the pool but one
whose own file it has found drifted, and leaves the others as they are; a record leaves the pool at
most once, and is defunct then; the sweeps report as many evictions as there are records that were taken
out by evicting them; and closing the handles of a record that is not pooled changes no record and
nothing of what is pooled. -/
theorem evictions_safe (B : Backend σ ρ) (config : PoolConfig) (registry : Registry) (s₀ : σ)
    (moves : List (Move σ)) :
    let st₀ : Sweeping σ ρ := ofStart config registry s₀
    let st := run B moves st₀
    (∀ n id, st.pool.isPooled id = true → (step B (.evict n) st).pool.isPooled id = false →
      (∃ record b before look behind, st.pool.record? id = some record ∧
        record.backing = some b ∧ moves = before ++ look :: behind ∧
        FindsDrift B (run B before st₀) look n id b) ∧
      ∀ other, other ≠ id →
        (step B (.evict n) st).pool.record? other = st.pool.record? other ∧
        (step B (.evict n) st).pool.isPooled other = st.pool.isPooled other) ∧
    (((departures B moves st₀).map (·.2)).Nodup ∧
      ∀ pair ∈ departures B moves st₀, st.pool.isDefunct pair.2 = true) ∧
    (st.sweeps.map (·.report.evicted)).sum =
      (departures B moves st₀).countP (·.1.isEviction) ∧
    (∀ number handle, st.pool.handle? number = some handle →
      st.pool.isPooled handle.record = false →
      ∀ turn : Turn σ, turn = .mark number ∨ turn = .release number →
        (Pool.step B turn (st.pool, st.providers)).1.records = st.pool.records ∧
        (Pool.step B turn (st.pool, st.providers)).1.mounts = st.pool.mounts) := by
  intro st₀ st
  have hstart : Pool.Balanced st₀.pool := Pool.balanced_start config registry
  refine ⟨?_, ⟨nodup_departures moves hstart, isDefunct_of_mem_departures moves hstart⟩, ?_, ?_⟩
  · intro n id hp hout
    obtain ⟨htarget, hothers⟩ := target?_of_evicted (mem_missing_iff.mpr ⟨hp, hout⟩)
    obtain ⟨before, look, behind, b, hmoves, hfinds⟩ :=
      exists_findsDrift_of_target? moves rfl htarget
    obtain ⟨record, hr, hb⟩ := hfinds.backing
    obtain ⟨new, hnew, hbacking⟩ := exists_backing_of_run (B := B) (look :: behind) hr
    rw [← run_append, ← hmoves] at hnew
    exact ⟨⟨new, b, before, look, behind, hnew, hbacking.trans hb, hmoves, hfinds⟩, hothers⟩
  · have hreported := reported_run B moves st₀
    have hnone : st₀.reported = 0 := rfl
    rw [hnone, Nat.zero_add] at hreported
    exact hreported
  · intro number handle hh hout turn hturn
    obtain ⟨hrecords, hmounts, -⟩ :=
      records_close_of_not_isPooled B st.providers hh hout hturn
    exact ⟨hrecords, hmounts⟩

/-! ### Two sweeps after one record -/

/-- The mounted archive is touched on the host. -/
def touch (w : World) : World :=
  { w with host.files := w.host.files.map fun file => { file with modified := .tick 1 } }

/-- An archive is mounted and touched, and two sweeps find that. -/
def bothFind : List (Move World) :=
  [.turn (.acquire 0 Pool.sampleRoot.text Pool.sampleRoot) rfl, .start, .start,
    .turn (.elsewhere touch) rfl, .probe 0 0, .probe 1 0, .compare 1, .compare 0]

/-- One sweep evicts the record, the archive is mounted again, and the other sweep is too late. -/
def bothEvict : List (Move World) :=
  [.evict 0, .turn (.acquire 0 Pool.sampleRoot.text Pool.sampleRoot) rfl, .evict 1]

/-- A pool before the archive is mounted in it. -/
def sampleStart : Sweeping World ProvidedResource :=
  ofStart {} Pool.sampleRegistry Pool.sampleWorld

/-- The first sweep evicts the record whose file it has found drifted. The second one leaves the
record alone that was made since, and the handle on the first record can be closed without harm to
it. -/
theorem evictions_safe_of_bothEvict :
    (∃ b before look behind, bothFind = before ++ look :: behind ∧
      FindsDrift World.backend (run World.backend before sampleStart) look 0 0 b) ∧
    let st := run World.backend (bothFind ++ bothEvict) sampleStart
    st.pool.isDefunct 0 = true ∧ st.pool.isPooled 1 = true ∧
      (st.sweeps.map (·.report.evicted)).sum = 1 ∧
      (Pool.step World.backend (.release 0) (st.pool, st.providers)).1.records =
        st.pool.records := by
  have hpooled : (run World.backend bothFind sampleStart).pool.isPooled 0 = true := by
    decide +kernel
  have hgone : (step World.backend (.evict 0)
      (run World.backend bothFind sampleStart)).pool.isPooled 0 = false := by decide +kernel
  have hleft : (departures World.backend (bothFind ++ bothEvict) sampleStart).map (·.2) = [0] := by
    decide +kernel
  have hevicted : (departures World.backend (bothFind ++ bothEvict) sampleStart).countP
      (·.1.isEviction) = 1 := by decide +kernel
  have hfresh : (run World.backend (bothFind ++ bothEvict) sampleStart).pool.isPooled 1 = true := by
    decide +kernel
  have hheld : ((run World.backend (bothFind ++ bothEvict) sampleStart).pool.handle? 0).map
      (·.record) = some 0 := by decide +kernel
  have hout : (run World.backend (bothFind ++ bothEvict) sampleStart).pool.isPooled 0 = false := by
    decide +kernel
  have hfound := (evictions_safe World.backend {} Pool.sampleRegistry Pool.sampleWorld bothFind).1
  have hbehind := (evictions_safe World.backend {} Pool.sampleRegistry Pool.sampleWorld
    (bothFind ++ bothEvict)).2
  rw [← sampleStart] at hfound hbehind
  obtain ⟨⟨-, b, before, look, behind, -, -, hmoves, hfinds⟩, -⟩ := hfound 0 0 hpooled hgone
  obtain ⟨⟨-, hdefunct⟩, hreports, hcloses⟩ := hbehind
  obtain ⟨pair, hpair, hzero⟩ : ∃ pair ∈ departures World.backend (bothFind ++ bothEvict)
      sampleStart, pair.2 = 0 := List.mem_map.mp (hleft ▸ List.mem_singleton_self 0)
  obtain ⟨handle, hhandle, hrecord⟩ := Option.map_eq_some_iff.mp hheld
  refine ⟨⟨b, before, look, behind, hmoves, hfinds⟩, hzero ▸ hdefunct pair hpair, hfresh,
    hreports.trans hevicted, ?_⟩
  exact (hcloses 0 handle hhandle (hrecord ▸ hout) (.release 0) (.inr rfl)).1

end Sweeping

end ContentMounts
