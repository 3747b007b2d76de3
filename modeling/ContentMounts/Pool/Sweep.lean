import ContentMounts.Pool.Release

/-!
# Sweeping

A sweep looks at the backing file of every mount and evicts the mounts whose file is gone, cannot be
read any more, or has another length or time of modification than when the mount was made. The
files are looked at without the lock, so a record may have left the pool when its turn comes.

What the host answers about a file is a parameter of the turns: the files of a `Host` can be opened
whenever they are there, while a file elsewhere may be there and refuse to be opened.
-/

namespace ContentMounts

/-- The outcome of a sweep. -/
structure SweepReport where
  /-- The records looked at. -/
  checked : Nat
  /-- The records removed because their file drifted. -/
  evicted : Nat
  /-- The records without a file. -/
  skipped : Nat
  /-- The records whose file could not be looked at. -/
  unverified : Nat
deriving DecidableEq, Repr

/-- The report of a sweep that has not looked at anything. -/
def SweepReport.empty : SweepReport := ⟨0, 0, 0, 0⟩

/-- Whether a failure means that a file is gone for its readers. -/
def IoError.isGone : IoError → Bool
  | .notFound => true
  | .permissionDenied => true
  | _ => false

/-- What is answered to somebody who opens a file, and who asks for its length and time. -/
structure FileAnswers where
  openFile : Path → Except IoError Unit
  snapshot : Path → Except IoError Host.Snapshot

/-- The answers of a host. It opens whatever is there. -/
def Host.answers (h : Host) : FileAnswers where
  openFile path := (h.stat path).map fun _ => ()
  snapshot := h.snapshot

/-- The answers of the host behind a backend. -/
def Backend.answers {σ ρ : Type} (B : Backend σ ρ) (s : σ) : FileAnswers := (B.host s).answers

/-- What a sweep does with a record. -/
inductive Finding where
  | skipped
  | kept
  | drifted
  | unverified
deriving DecidableEq, Repr

namespace FileAnswers

/-- Length and time of a file that can be opened. -/
def check (files : FileAnswers) (path : Path) : Except IoError Host.Snapshot := do
  files.openFile path
  files.snapshot path

/-- Whether a file is gone, unreadable or changed. -/
def hasDrifted (files : FileAnswers) (b : BackingFile) : Except IoError Bool :=
  match files.check b.path with
  | .ok current => .ok (current != b.snapshot)
  | .error e => if e.isGone then .ok true else .error e

/-- What a sweep finds out about a record. -/
def finding (files : FileAnswers) (r : MountRecord) : Finding :=
  match r.backing with
  | none => .skipped
  | some b =>
    match files.hasDrifted b with
    | .ok false => .kept
    | .ok true => .drifted
    | .error _ => .unverified

end FileAnswers

/-- A host that is asked for length and time only answers the same. -/
theorem Host.check_answers (h : Host) (path : Path) : h.answers.check path = h.snapshot path := by
  unfold FileAnswers.check answers snapshot
  dsimp only
  cases h.stat path with
  | error e => rfl
  | ok n => rfl

/-- Whether a file is gone, unreadable or changed on a host. -/
def BackingFile.hasDrifted (h : Host) (b : BackingFile) : Except IoError Bool :=
  h.answers.hasDrifted b

/-- What a sweep finds out about a record on a host. -/
def MountRecord.finding (h : Host) (r : MountRecord) : Finding := h.answers.finding r

namespace Pool

variable {σ ρ : Type}

/-- The turn of one record in a sweep that is answered as given. -/
def sweepRecord (ask : σ → FileAnswers) (B : Backend σ ρ) (id : RecordId) (report : SweepReport)
    (p : Pool ρ) (s : σ) : SweepReport × Pool ρ × σ :=
  match p.record? id with
  | none => (report, p, s)
  | some record =>
    let report := { report with checked := report.checked + 1 }
    match (ask s).finding record with
    | .skipped => ({ report with skipped := report.skipped + 1 }, p, s)
    | .kept => (report, p, s)
    | .unverified => ({ report with unverified := report.unverified + 1 }, p, s)
    | .drifted =>
      match p.evict B id s with
      | (true, p, s) => ({ report with evicted := report.evicted + 1 }, p, s)
      | (false, p, s) => (report, p, s)

/-- The turns of the given records. -/
def sweepRecords (ask : σ → FileAnswers) (B : Backend σ ρ) :
    List RecordId → SweepReport → Pool ρ → σ → SweepReport × Pool ρ × σ
  | [], report, p, s => (report, p, s)
  | id :: rest, report, p, s =>
    let (report, p, s) := p.sweepRecord ask B id report s
    sweepRecords ask B rest report p s

/-- A sweep over the records that are pooled when it starts. -/
def sweep (B : Backend σ ρ) (p : Pool ρ) (s : σ) : SweepReport × Pool ρ × σ :=
  sweepRecords B.answers B p.pooledIds .empty p s

/-- What is left when sweeps have been made until no more than the given number of mounts are
pooled. A second sweep finds nothing that the first one did not, as long as no file changes. -/
def sweepDownTo (B : Backend σ ρ) (mounts : Nat) (p : Pool ρ) (s : σ) : Pool ρ × σ :=
  if p.mounts.length ≤ mounts then (p, s) else (p.sweep B s).2

end Pool

end ContentMounts
