import Mathlib.Tactic.Common
import ContentMounts.Pool.Acquire
import ContentMounts.Pool.Navigation
import ContentMounts.Pool.Sweep

/-!
# Runs of a pool

Any number of threads use a pool at once, and one lock protects its records. What they do is
therefore an interleaving of *turns*, each of which is what happens while the lock is held once, or
what happens to the providers and the host in the meantime. Closing a handle takes two turns, since
the handle is marked before the lock is taken, and a sweep takes one turn for each record that it
evicts.

`Pool.run` carries out a list of turns in their order. The operations that the library offers are
runs of their own turns (`acquire_eq_run`, `exists_run_close`, `exists_run_sweep`), so whatever
holds behind every run holds behind every interleaving of them.
-/

namespace ContentMounts

/-- One turn in the life of a pool whose providers have states of type `σ`. -/
inductive Turn (σ : Type) where
  /-- An acquisition, once the provider for the address is found. -/
  | acquire (provider : ProviderId) (input : Text) (uri : Url)
  /-- The first half of closing or dropping a handle. -/
  | mark (handle : HandleId)
  /-- The second half of closing or dropping a handle. -/
  | release (handle : HandleId)
  /-- What a sweep does to a record whose backing file has drifted. -/
  | evict (record : RecordId)
  /-- The registration of a provider. -/
  | register (schemes : List Text) (provider : ProviderId)
  /-- A handle's question for an entry of its mount. -/
  | navigate (handle : HandleId) (entry : Text)
  /-- Whatever others do to the providers, to their filesystems and to the host. -/
  | elsewhere (change : σ → σ)

namespace Pool

variable {σ ρ : Type}

/-- A pool as it is made, before anything is mounted. -/
def start (config : PoolConfig) (registry : Registry) : Pool ρ := ⟨config, registry, [], [], []⟩

/-- The pool and the providers behind one turn. -/
def step (B : Backend σ ρ) : Turn σ → Pool ρ × σ → Pool ρ × σ
  | .acquire provider input uri, (p, s) => (p.acquireFrom B provider input uri s).2
  | .mark id, (p, s) => ((p.mark id).2, s)
  | .release id, (p, s) => p.release B id s
  | .evict id, (p, s) => (p.evict B id s).2
  | .register schemes provider, (p, s) =>
    ((p.registerProvider schemes provider).toOption.getD p, s)
  | .navigate id entry, (p, s) =>
    (p, (p.handle? id).elim s fun handle => (p.entry B handle entry s).2)
  | .elsewhere change, (p, s) => (p, change s)

/-- The pool and the providers behind a list of turns. -/
def run (B : Backend σ ρ) (turns : List (Turn σ)) (st : Pool ρ × σ) : Pool ρ × σ :=
  turns.foldl (fun st turn => step B turn st) st

@[simp] lemma run_nil (B : Backend σ ρ) (st : Pool ρ × σ) : run B [] st = st := rfl

@[simp] lemma run_cons (B : Backend σ ρ) (turn : Turn σ) (turns : List (Turn σ))
    (st : Pool ρ × σ) : run B (turn :: turns) st = run B turns (step B turn st) := rfl

lemma run_append (B : Backend σ ρ) (turns later : List (Turn σ)) (st : Pool ρ × σ) :
    run B (turns ++ later) st = run B later (run B turns st) :=
  List.foldl_append

/-! ## The operations as runs -/

/-- An acquisition that finds a provider is one turn, and any other changes nothing. -/
theorem acquire_eq_run (B : Backend σ ρ) (input : Text) (p : Pool ρ) (s : σ) :
    (p.acquire B input s).2 =
      run B (match p.provider input with
        | .ok (uri, provider) => [.acquire provider input uri]
        | .error _ => []) (p, s) := by
  unfold acquire
  cases p.provider input with
  | error e => rfl
  | ok found => rfl

/-- Closing a handle is marking it and, for whoever marked it, releasing it. -/
theorem exists_run_close (B : Backend σ ρ) (id : HandleId) (p : Pool ρ) (s : σ) :
    ∃ turns, p.close B id s = run B turns (p, s) := by
  unfold close mark
  by_cases h : (p.handle? id).any (·.state == .live) = true
  · refine ⟨[.mark id, .release id], ?_⟩
    simp [step, mark, h]
  · refine ⟨[], ?_⟩
    simp [h]

/-- The turn of one record in a sweep is its eviction or nothing. -/
lemma exists_run_sweepRecord (ask : σ → FileAnswers) (B : Backend σ ρ) (id : RecordId)
    (report : SweepReport) (p : Pool ρ) (s : σ) :
    ∃ turns, (p.sweepRecord ask B id report s).2 = run B turns (p, s) := by
  unfold sweepRecord
  cases p.record? id with
  | none => exact ⟨[], rfl⟩
  | some record =>
    cases hf : (ask s).finding record with
    | drifted =>
      refine ⟨[.evict id], ?_⟩
      by_cases hp : p.isPooled id = true <;> simp [step, evict, hp, hf]
    | _ => exact ⟨[], by simp [hf]⟩

/-- A sweep is a run of evictions. -/
theorem exists_run_sweep (B : Backend σ ρ) (p : Pool ρ) (s : σ) :
    ∃ turns, (p.sweep B s).2 = run B turns (p, s) := by
  suffices h : ∀ (ids : List RecordId) (report : SweepReport) (p : Pool ρ) (s : σ),
      ∃ turns, (sweepRecords B.answers B ids report p s).2 = run B turns (p, s) from h _ _ p s
  intro ids
  induction ids with
  | nil => exact fun _ p s => ⟨[], rfl⟩
  | cons id rest ih =>
    intro report p s
    obtain ⟨first, hfirst⟩ := exists_run_sweepRecord B.answers B id report p s
    obtain ⟨others, hothers⟩ := ih (p.sweepRecord B.answers B id report s).1
      (p.sweepRecord B.answers B id report s).2.1 (p.sweepRecord B.answers B id report s).2.2
    refine ⟨first ++ others, ?_⟩
    rw [run_append, ← hfirst]
    exact hothers

end Pool

end ContentMounts
