import Mathlib.Data.Set.Card
import ContentMounts.Proofs.Pool.Sweeps

/-!
# The outcome of a sweep

What a sweep finds out about a record depends on the file behind the record and on nothing else. So
a sweep that nobody interferes with finds out about every record what there was to find out when it
began (`sweepRecords_spec`), whatever it did to the records before: the pool behind it is the pool
without the records whose files have drifted, and its report counts its findings. Neither depends on
the order of the records, and a second sweep has nothing left to do.

The only thing that a sweep does to others is to close the filesystems of the records that it
evicts. That must not change what the host answers about files.
-/

namespace ContentMounts

/-! ## What there is to find out -/

/-- A file cannot be opened, or not be looked at once it is opened. -/
def FileAnswers.Fails (files : FileAnswers) (path : Path) (e : IoError) : Prop :=
  files.openFile path = .error e ∨ files.openFile path = .ok () ∧ files.snapshot path = .error e

/-- A file is gone or not permitted any more, or it has another length or time than it had when the
mount was made. -/
def BackingFile.Drifted (files : FileAnswers) (b : BackingFile) : Prop :=
  files.Fails b.path .notFound ∨ files.Fails b.path .permissionDenied ∨
    ∃ current, files.openFile b.path = .ok () ∧ files.snapshot b.path = .ok current ∧
      (current.length ≠ b.snapshot.length ∨ current.modified ≠ b.snapshot.modified)

/-- The file behind a record has drifted. -/
def MountRecord.Drifted (files : FileAnswers) (r : MountRecord) : Prop :=
  ∃ b, r.backing = some b ∧ b.Drifted files

/-- The file behind a record cannot be looked at, for another reason than that it is gone. -/
def MountRecord.Unchecked (files : FileAnswers) (r : MountRecord) : Prop :=
  ∃ b e, r.backing = some b ∧ files.Fails b.path e ∧ e ≠ .notFound ∧ e ≠ .permissionDenied

/-- No file is watched for a record. -/
def MountRecord.Untracked (r : MountRecord) : Prop := r.backing = none

section Findings

variable {files : FileAnswers} {b : BackingFile} {r : MountRecord}

lemma IoError.isGone_iff {e : IoError} :
    e.isGone = true ↔ e = .notFound ∨ e = .permissionDenied := by
  cases e <;> decide

namespace FileAnswers

lemma check_eq_error_iff {path : Path} {e : IoError} :
    files.check path = .error e ↔ files.Fails path e := by
  unfold check Fails
  cases files.openFile path with
  | error e' => simp [Bind.bind, Except.bind]
  | ok u => simp [Bind.bind, Except.bind]

lemma check_eq_ok_iff {path : Path} {current : Host.Snapshot} :
    files.check path = .ok current ↔
      files.openFile path = .ok () ∧ files.snapshot path = .ok current := by
  unfold check
  cases files.openFile path with
  | error e => simp [Bind.bind, Except.bind]
  | ok u => simp [Bind.bind, Except.bind]

/-- Two snapshots differ in length or in time. -/
lemma snapshot_bne_iff {current known : Host.Snapshot} : (current != known) = true ↔
    current.length ≠ known.length ∨ current.modified ≠ known.modified := by
  rw [bne_iff_ne, Ne, Host.Snapshot.mk.injEq, not_and_or]

lemma hasDrifted_eq_true_iff : files.hasDrifted b = .ok true ↔ b.Drifted files := by
  unfold hasDrifted BackingFile.Drifted
  rw [← check_eq_error_iff, ← check_eq_error_iff]
  simp only [← and_assoc, ← check_eq_ok_iff]
  cases hcheck : files.check b.path with
  | error e =>
    have hgone := IoError.isGone_iff (e := e)
    by_cases h : e.isGone = true
    · simp [h, hgone.mp h]
    · simpa [h] using not_or.mp (mt hgone.mpr h)
  | ok current => simp [← snapshot_bne_iff]

lemma hasDrifted_eq_error_iff {e : IoError} : files.hasDrifted b = .error e ↔
    files.Fails b.path e ∧ e ≠ .notFound ∧ e ≠ .permissionDenied := by
  unfold hasDrifted
  rw [← check_eq_error_iff, ← not_or, ← IoError.isGone_iff]
  cases files.check b.path with
  | error failure =>
    by_cases h : failure.isGone = true
    · simp only [h, if_true, reduceCtorEq, Except.error.injEq, false_iff, not_and, not_not]
      rintro rfl
      exact h
    · simp only [h, Bool.false_eq_true, if_false, Except.error.injEq]
      refine ⟨?_, And.left⟩
      rintro rfl
      exact ⟨rfl, h⟩
  | ok current => simp

lemma finding_eq_skipped_iff : files.finding r = .skipped ↔ r.Untracked := by
  unfold finding MountRecord.Untracked
  cases r.backing with
  | none => simp
  | some b =>
    dsimp only
    rcases files.hasDrifted b with e | _ | _ <;> simp

lemma finding_eq_drifted_iff : files.finding r = .drifted ↔ r.Drifted files := by
  unfold finding MountRecord.Drifted
  simp only [← hasDrifted_eq_true_iff]
  cases r.backing with
  | none => simp
  | some b =>
    simp only [Option.some.injEq, exists_eq_left']
    rcases files.hasDrifted b with e | _ | _ <;> simp

lemma finding_eq_unverified_iff : files.finding r = .unverified ↔ r.Unchecked files := by
  unfold finding MountRecord.Unchecked
  simp only [← hasDrifted_eq_error_iff]
  cases r.backing with
  | none => simp
  | some b =>
    simp only [Option.some.injEq, exists_and_left, exists_eq_left']
    rcases files.hasDrifted b with e | _ | _ <;> simp

end FileAnswers

end Findings

namespace Pool

variable {σ ρ : Type}

/-! ## Pools without some of their records -/

/-- The pool without some records, which are defunct. -/
def without (gone : RecordId → Bool) (p : Pool ρ) : Pool ρ :=
  { p with
    mounts := p.mounts.filter fun pair => !gone pair.2
    records := p.records.mapIdx fun id r => if gone id then { r with defunct := true } else r }

section Without

variable {p : Pool ρ} {gone : RecordId → Bool} {id : RecordId}

lemma record?_without : (p.without gone).record? id =
    (p.record? id).map fun r => if gone id then { r with defunct := true } else r :=
  List.getElem?_mapIdx

lemma without_false : p.without (fun _ => false) = p := by
  unfold without
  simp only [Bool.not_false, List.filter_true, Bool.false_eq_true, if_false]
  congr 1
  refine List.ext_getElem? fun i => ?_
  rw [List.getElem?_mapIdx, Option.map_id']

/-- Records may be taken out in two goes. -/
lemma without_without (later : RecordId → Bool) :
    (p.without gone).without later = p.without fun id => gone id || later id := by
  unfold without
  simp only [List.filter_filter, List.mapIdx_mapIdx, Bool.not_or, Bool.and_comm]
  congr 2
  funext id r
  by_cases h : gone id = true <;> by_cases h' : later id = true <;> simp [h, h']

/-- The keys that are left lead where they led. -/
lemma lookup_without (h : Linked p) (key : Text) :
    (p.without gone).mounts.lookup key = some id ↔
      p.mounts.lookup key = some id ∧ gone id = false := by
  have hnodup : (Assoc.keys (p.without gone).mounts).Nodup :=
    h.nodup.sublist (List.filter_sublist.map _)
  rw [Assoc.lookup_eq_some_iff_mem hnodup, Assoc.lookup_eq_some_iff_mem h.nodup, without,
    List.mem_filter, Bool.not_eq_true']

/-- What is left in the pool is pooled. -/
lemma isPooled_without (h : Linked p) :
    (p.without gone).isPooled id = (p.isPooled id && !gone id) := by
  rw [Bool.eq_iff_iff, Bool.and_eq_true, Bool.not_eq_true', isPooled_iff, isPooled_iff,
    record?_without]
  cases p.record? id with
  | none => simp
  | some r =>
    have hkey : (if gone id then { r with defunct := true } else r).key = r.key := by
      split <;> rfl
    simp only [Option.map_some, Option.some.injEq, exists_eq_left', hkey, lookup_without h]

/-- A record that is retired is gone by itself. -/
lemma unpool_eq_without (h : Linked p) {record : MountRecord} (hp : p.isPooled id = true)
    (hr : p.record? id = some record) : p.unpool id record.key = p.without (· == id) := by
  have hmounts : Assoc.erase record.key.text p.mounts =
      p.mounts.filter fun pair => !(pair.2 == id) := by
    refine List.filter_congr fun pair hmem => congrArg not ?_
    have hlook := (Assoc.lookup_eq_some_iff_mem h.nodup).mpr hmem
    obtain ⟨other, ho, hkey⟩ := h.keyed hlook
    obtain ⟨r, hr', hpooled⟩ := (isPooled_iff p id).mp hp
    obtain rfl : record = r := Option.some.inj (hr.symm.trans hr')
    rw [Bool.eq_iff_iff, beq_iff_eq, beq_iff_eq]
    constructor
    · intro heq
      rw [heq, hpooled] at hlook
      exact (Option.some.inj hlook).symm
    · intro heq
      rw [heq, hr] at ho
      rw [← hkey, ← Option.some.inj ho]
  have hrecords : p.records.modify id (fun r => { r with defunct := true }) =
      p.records.mapIdx fun i r => if i == id then { r with defunct := true } else r := by
    refine List.ext_getElem? fun i => ?_
    rw [List.getElem?_modify, List.getElem?_mapIdx]
    refine congrArg (· <$> p.records[i]?) (funext fun r => ?_)
    by_cases hi : i = id
    · simp [hi]
    · simp [hi, Ne.symm hi]
  unfold unpool modifyRecord without
  dsimp only
  rw [hmounts, hrecords]

end Without

/-! ## One record's turn -/

/-- What there is to find out about the record with a number. -/
def finding? (files : FileAnswers) (p : Pool ρ) (id : RecordId) : Option Finding :=
  (p.record? id).map files.finding

/-- What is found out about a record does not depend on what is pooled. -/
lemma finding?_without (files : FileAnswers) (p : Pool ρ) (gone : RecordId → Bool) :
    (p.without gone).finding? files = p.finding? files := by
  funext id
  rw [finding?, record?_without, Option.map_map]
  refine congrArg (Option.map · (p.record? id)) (funext fun r => ?_)
  rw [Function.comp_apply]
  split <;> rfl

/-- Whether a record is to be evicted. -/
def drifts (files : FileAnswers) (p : Pool ρ) (id : RecordId) : Bool :=
  p.finding? files id == some .drifted

/-- What is left of a pool when the given records have had their turns. -/
def swept (files : FileAnswers) (ids : List RecordId) (p : Pool ρ) : Pool ρ :=
  p.without fun id => ids.contains id && p.drifts files id

lemma drifts_iff {files : FileAnswers} {p : Pool ρ} {id : RecordId} :
    p.drifts files id = true ↔ ∃ record, p.record? id = some record ∧ record.Drifted files := by
  simp only [drifts, finding?, beq_iff_eq, Option.map_eq_some_iff,
    FileAnswers.finding_eq_drifted_iff]

lemma drifts_without (files : FileAnswers) (p : Pool ρ) (gone : RecordId → Bool) :
    (p.without gone).drifts files = p.drifts files := by
  unfold drifts
  rw [finding?_without]

end Pool

/-- A report with some more findings, where everything that has drifted is evicted. -/
def SweepReport.noteAll (report : SweepReport) (found : List Finding) : SweepReport where
  checked := report.checked + found.length
  evicted := report.evicted + found.count .drifted
  skipped := report.skipped + found.count .skipped
  unverified := report.unverified + found.count .unverified

lemma SweepReport.noteAll_append (report : SweepReport) (found more : List Finding) :
    report.noteAll (found ++ more) = (report.noteAll found).noteAll more := by
  simp only [noteAll, List.length_append, List.count_append, Nat.add_assoc]

namespace Pool

variable {ask : σ → FileAnswers} {B : Backend σ ρ} {p : Pool ρ} {s : σ}

/-- In its turn a pooled record is noted, and it is gone if its file has drifted. -/
lemma sweepRecord_spec (hquiet : ∀ fs s, ask (B.close fs s) = ask s) (h : Linked p) {id : RecordId}
    (hp : p.isPooled id = true) (report : SweepReport) :
    (p.sweepRecord ask B id report s).1 = report.noteAll (p.finding? (ask s) id).toList ∧
      (p.sweepRecord ask B id report s).2.1 =
        p.without (fun other => other == id && p.drifts (ask s) other) ∧
      ask (p.sweepRecord ask B id report s).2.2 = ask s := by
  obtain ⟨record, hr⟩ := exists_record_of_isPooled hp
  have hfinding : p.finding? (ask s) id = some ((ask s).finding record) := by
    rw [finding?, hr, Option.map_some]
  have hgone : (fun other => other == id && p.drifts (ask s) other) =
      fun other => other == id && (ask s).finding record == .drifted := by
    funext other
    by_cases hother : other = id
    · rw [hother, drifts, hfinding]
      rfl
    · have hbeq : (other == id) = false := by simpa using hother
      rw [hbeq, Bool.false_and, Bool.false_and]
  have hstays : ∀ {found : Finding}, found ≠ .drifted →
      p.without (fun other => other == id && found == .drifted) = p := by
    intro found hfound
    rw [beq_false_of_ne hfound]
    simp only [Bool.and_false, without_false]
  rw [hgone, hfinding, sweepRecord, hr]
  dsimp only
  cases (ask s).finding record with
  | skipped => exact ⟨rfl, (hstays (by decide)).symm, rfl⟩
  | kept => exact ⟨rfl, (hstays (by decide)).symm, rfl⟩
  | unverified => exact ⟨rfl, (hstays (by decide)).symm, rfl⟩
  | drifted =>
    have hclosed : ask (if record.defunct then s else B.close record.fs s) = ask s := by
      split
      · rfl
      · exact hquiet record.fs s
    rw [evict_eq B hp hr, unpool_eq_without h hp hr]
    refine ⟨rfl, ?_, hclosed⟩
    simp only [beq_self_eq_true, Bool.and_true]

/-- The turns of pooled records find out about each what there was to find out at the beginning, and
take out of the pool what has drifted. -/
lemma sweepRecords_spec (hquiet : ∀ fs s, ask (B.close fs s) = ask s) (h : Balanced p)
    {ids : List RecordId} (hnodup : ids.Nodup) (hids : ∀ id ∈ ids, p.isPooled id = true)
    (report : SweepReport) :
    (sweepRecords ask B ids report p s).1 =
        report.noteAll (ids.filterMap (p.finding? (ask s))) ∧
      (sweepRecords ask B ids report p s).2.1 = p.swept (ask s) ids ∧
      Balanced (sweepRecords ask B ids report p s).2.1 ∧
      ask (sweepRecords ask B ids report p s).2.2 = ask s := by
  induction ids generalizing report p s with
  | nil => exact ⟨rfl, without_false.symm, h, rfl⟩
  | cons id rest ih =>
    obtain ⟨hnotMem, hrest⟩ := List.nodup_cons.mp hnodup
    obtain ⟨hreport, hpool, hask⟩ := sweepRecord_spec (s := s) hquiet h.toLinked
      (hids id List.mem_cons_self) report
    obtain ⟨turns, hturns⟩ := exists_run_sweepRecord ask B id report p s
    have hbalanced : Balanced (p.sweepRecord ask B id report s).2.1 := by
      rw [hturns]
      exact balanced_run B turns h
    have hnext : ∀ other ∈ rest, (p.sweepRecord ask B id report s).2.1.isPooled other = true := by
      intro other hmem
      have hne : (other == id) = false := by simpa using ne_of_mem_of_not_mem hmem hnotMem
      rw [hpool, isPooled_without h.toLinked, hids other (List.mem_cons_of_mem id hmem), hne]
      rfl
    obtain ⟨hreports, hpools, hbalances, hasks⟩ := ih hbalanced hrest hnext
      (p.sweepRecord ask B id report s).1 (s := (p.sweepRecord ask B id report s).2.2)
    refine ⟨hreports.trans ?_, hpools.trans ?_, hbalances, hasks.trans hask⟩
    · rw [hask, hreport, hpool, finding?_without, ← SweepReport.noteAll_append,
        List.filterMap_cons]
      cases p.finding? (ask s) id <;> rfl
    · rw [hask, hpool, swept, drifts_without, without_without]
      congr 1
      funext other
      rw [List.contains_cons, Bool.and_or_distrib_right]

/-! ## Findings in numbers -/

/-- The pooled records. -/
def pooledSet (p : Pool ρ) : Set RecordId := {id | p.isPooled id = true}

/-- The pooled records with a property. -/
def pooledWith (p : Pool ρ) (P : MountRecord → Prop) : Set RecordId :=
  {id ∈ p.pooledSet | ∃ record, p.record? id = some record ∧ P record}

/-- The numbers in the pool are those of the pooled records. -/
lemma mem_pooledIds_iff (h : Linked p) {id : RecordId} :
    id ∈ p.pooledIds ↔ p.isPooled id = true := by
  rw [pooledIds, List.mem_map, isPooled_iff]
  constructor
  · rintro ⟨⟨key, i⟩, hmem, rfl⟩
    have hlook := (Assoc.lookup_eq_some_iff_mem h.nodup).mpr hmem
    obtain ⟨record, hr, hkey⟩ := h.keyed hlook
    exact ⟨record, hr, hkey ▸ hlook⟩
  · rintro ⟨record, -, hlook⟩
    exact ⟨_, Assoc.mem_of_lookup hlook, rfl⟩

/-- No record is pooled under two keys. -/
lemma nodup_pooledIds (h : Linked p) : p.pooledIds.Nodup := by
  refine List.Nodup.map_on ?_ (List.Nodup.of_map _ h.nodup)
  rintro ⟨key, i⟩ hi ⟨other, j⟩ hj heq
  obtain rfl : i = j := heq
  obtain ⟨a, ha, hkey⟩ := h.keyed ((Assoc.lookup_eq_some_iff_mem h.nodup).mpr hi)
  obtain ⟨b, hb, hother⟩ := h.keyed ((Assoc.lookup_eq_some_iff_mem h.nodup).mpr hj)
  obtain rfl : a = b := Option.some.inj (ha.symm.trans hb)
  rw [← hkey, hother]

section Numbers

variable {files : FileAnswers} {ids : List RecordId}

lemma ncard_eq_countP (h : Linked p) (hids : ids.Perm p.pooledIds) {found : RecordId → Bool}
    {S : Set RecordId} (hS : ∀ id, id ∈ S ↔ p.isPooled id = true ∧ found id = true) :
    S.ncard = ids.countP found := by
  have hcoe : S = ((ids.filter found).toFinset : Set RecordId) := by
    ext id
    rw [List.coe_toFinset, Set.mem_ofPred_eq, List.mem_filter, hids.mem_iff, mem_pooledIds_iff h, hS]
  have hnodup : (ids.filter found).Nodup := (hids.nodup_iff.mpr (nodup_pooledIds h)).filter _
  rw [hcoe, Set.ncard_coe_finset, List.toFinset_card_of_nodup hnodup, List.countP_eq_length_filter]

/-- A record is pooled with a property if that is what is found out about it. -/
lemma mem_pooledWith_iff {found : Finding} {P : MountRecord → Prop}
    (hP : ∀ r, files.finding r = found ↔ P r) {id : RecordId} :
    id ∈ p.pooledWith P ↔ p.isPooled id = true ∧ p.finding? files id = some found := by
  simp only [pooledWith, pooledSet, Set.mem_ofPred_eq, finding?, Option.map_eq_some_iff, hP]

/-- The findings of one kind are as many as the records that they are made about. -/
lemma count_findings (h : Linked p) (hids : ids.Perm p.pooledIds) {found : Finding}
    {P : MountRecord → Prop} (hP : ∀ r, files.finding r = found ↔ P r) :
    (ids.filterMap (p.finding? files)).count found = (p.pooledWith P).ncard := by
  rw [List.count_filterMap]
  refine (ncard_eq_countP h hids fun id => ?_).symm
  rw [mem_pooledWith_iff hP, beq_iff_eq]

/-- There is one finding about each record. -/
lemma length_findings (h : Linked p) (hids : ids.Perm p.pooledIds) :
    (ids.filterMap (p.finding? files)).length = p.pooledSet.ncard := by
  rw [List.length_filterMap_eq_countP]
  refine (ncard_eq_countP h hids fun id => ?_).symm
  refine ⟨fun hp => ⟨hp, ?_⟩, And.left⟩
  obtain ⟨record, hr⟩ := exists_record_of_isPooled hp
  rw [finding?, hr]
  rfl

/-- The report of a sweep by the records of a pool. -/
noncomputable def census (files : FileAnswers) (p : Pool ρ) : SweepReport where
  checked := p.pooledSet.ncard
  evicted := (p.pooledWith (·.Drifted files)).ncard
  skipped := (p.pooledWith (·.Untracked)).ncard
  unverified := (p.pooledWith (·.Unchecked files)).ncard

lemma noteAll_findings (h : Linked p) (hids : ids.Perm p.pooledIds) :
    SweepReport.empty.noteAll (ids.filterMap (p.finding? files)) = p.census files := by
  simp only [SweepReport.noteAll, SweepReport.empty, Nat.zero_add, census, length_findings h hids,
    count_findings h hids fun _ => FileAnswers.finding_eq_drifted_iff,
    count_findings h hids fun _ => FileAnswers.finding_eq_skipped_iff,
    count_findings h hids fun _ => FileAnswers.finding_eq_unverified_iff]

end Numbers

/-! ## What a record was made with -/

/-- The file to watch for a new record is as it is on the host. -/
lemma snapshot_of_fresh {h : Host} {key : Url} {fs : FileSystemId} {b : BackingFile}
    (hb : (MountRecord.fresh h key fs).backing = some b) : h.snapshot b.path = .ok b.snapshot := by
  change MountRecord.backingOf h key = some b at hb
  obtain ⟨path, -, hrest⟩ := Option.bind_eq_some_iff.mp hb
  obtain ⟨snapshot, hsnapshot, hnew⟩ := Option.bind_eq_some_iff.mp hrest
  obtain rfl := Option.some.inj hnew
  exact eq_ok_of_toOption hsnapshot

/-- A record remembers the file to watch as it was when the record was made. -/
lemma exists_made (turns : List (Turn σ)) {config : PoolConfig} {registry : Registry} {s₀ : σ}
    {id : RecordId} {record : MountRecord}
    (hr : (run B turns (start config registry, s₀)).1.record? id = some record) :
    ∃ before turn, before ++ [turn] <+: turns ∧
      (run B before (start config registry, s₀)).1.record? id = none ∧
      ∀ b, record.backing = some b →
        (B.host (run B (before ++ [turn]) (start config registry, s₀)).2).snapshot b.path =
          .ok b.snapshot := by
  induction turns using List.reverseRecOn generalizing record with
  | nil => cases hr
  | append_singleton turns turn ih =>
    have hstep : run B (turns ++ [turn]) (start config registry, s₀) =
        step B turn (run B turns (start config registry, s₀)) := run_append B turns [turn] _
    cases hold : (run B turns (start config registry, s₀)).1.record? id with
    | none =>
      refine ⟨turns, turn, List.prefix_refl _, hold, fun b hb => ?_⟩
      rw [hstep] at hr ⊢
      obtain ⟨-, -, -, fs, key, -, -, rfl⟩ := exists_acquire_of_step hr hold
      exact snapshot_of_fresh hb
    | some old =>
      obtain ⟨before, made, hprefix, hnone, hsnapshot⟩ := ih hold
      obtain ⟨references, defunct, hnew⟩ := exists_recount_of_change (step_change B turn _) hold
      rw [hstep, hnew] at hr
      obtain rfl := Option.some.inj hr
      exact ⟨before, made, hprefix.trans (List.prefix_append turns [turn]), hnone, hsnapshot⟩

/-! ## What a sweep does -/

section Swept

variable {files : FileAnswers} {ids : List RecordId} {id : RecordId}

lemma isPooled_swept (h : Linked p) (hids : ids.Perm p.pooledIds) :
    (p.swept files ids).isPooled id = (p.isPooled id && !p.drifts files id) := by
  rw [swept, isPooled_without h]
  cases hp : p.isPooled id with
  | false => rfl
  | true =>
    have hmem : ids.contains id = true :=
      List.contains_iff_mem.mpr (hids.mem_iff.mpr ((mem_pooledIds_iff h).mpr hp))
    rw [hmem]
    rfl

/-- The pooled records behind a sweep are the earlier ones without those that have drifted. -/
lemma pooledSet_swept (h : Linked p) (hids : ids.Perm p.pooledIds) :
    (p.swept files ids).pooledSet = p.pooledSet \ p.pooledWith (·.Drifted files) := by
  ext id
  simp only [pooledWith, pooledSet, Set.mem_sdiff, Set.mem_ofPred_eq, isPooled_swept h hids,
    Bool.and_eq_true, Bool.not_eq_true', ← drifts_iff, not_and, Bool.not_eq_true]
  exact and_congr_right fun hp => ⟨fun hd _ => hd, fun hd => hd hp⟩

/-- A record that is still pooled is as it was. -/
lemma record?_swept (h : Linked p) (hids : ids.Perm p.pooledIds)
    (hp : (p.swept files ids).isPooled id = true) :
    (p.swept files ids).record? id = p.record? id := by
  rw [isPooled_swept h hids, Bool.and_eq_true, Bool.not_eq_true'] at hp
  rw [swept, record?_without, hp.2, Bool.and_false]
  exact Option.map_id'

/-- What a sweep does not evict is there to be found by the next one. -/
lemma pooledWith_swept (h : Linked p) (hids : ids.Perm p.pooledIds) {P : MountRecord → Prop}
    (hP : ∀ r, P r → ¬ r.Drifted files) : (p.swept files ids).pooledWith P = p.pooledWith P := by
  ext id
  constructor
  · rintro ⟨hq, record, hr, hrecord⟩
    rw [record?_swept h hids hq] at hr
    rw [pooledSet_swept h hids] at hq
    exact ⟨hq.1, record, hr, hrecord⟩
  · rintro ⟨hp, record, hr, hrecord⟩
    have hq : id ∈ (p.swept files ids).pooledSet := by
      rw [pooledSet_swept h hids]
      refine ⟨hp, ?_⟩
      rintro ⟨-, other, ho, hother⟩
      obtain rfl : record = other := Option.some.inj (hr.symm.trans ho)
      exact hP record hrecord hother
    exact ⟨hq, record, (record?_swept h hids hq).trans hr, hrecord⟩

/-- A pool that was swept has nothing to be evicted. -/
lemma swept_swept (h : Linked p) (hids : ids.Perm p.pooledIds) {later : List RecordId}
    (hq : Linked (p.swept files ids)) (hlater : later.Perm (p.swept files ids).pooledIds) :
    (p.swept files ids).swept files later = p.swept files ids := by
  have hnone : (fun id => later.contains id && (p.swept files ids).drifts files id) =
      fun _ => false := by
    funext id
    refine Bool.and_eq_false_imp.mpr fun hmem => ?_
    have hp := (mem_pooledIds_iff hq).mp (hlater.mem_iff.mp (List.contains_iff_mem.mp hmem))
    rw [isPooled_swept h hids, Bool.and_eq_true, Bool.not_eq_true'] at hp
    rw [swept, drifts_without]
    exact hp.2
  rw [swept, hnone, without_false]

/-- What a sweep of a pool that was swept reports. -/
lemma census_swept (h : Linked p) (hids : ids.Perm p.pooledIds) :
    (p.swept files ids).census files =
      { p.census files with checked := (p.swept files ids).pooledSet.ncard, evicted := 0 } := by
  have hdrifted : (p.swept files ids).pooledWith (·.Drifted files) = ∅ := by
    rw [Set.eq_empty_iff_forall_notMem]
    rintro id ⟨hq, record, hr, hrecord⟩
    rw [record?_swept h hids hq] at hr
    rw [pooledSet_swept h hids] at hq
    exact hq.2 ⟨hq.1, record, hr, hrecord⟩
  have huntracked : ∀ r : MountRecord, r.Untracked → ¬ r.Drifted files := by
    intro r hr
    rw [← FileAnswers.finding_eq_drifted_iff, FileAnswers.finding_eq_skipped_iff.mpr hr]
    decide
  have hunchecked : ∀ r : MountRecord, r.Unchecked files → ¬ r.Drifted files := by
    intro r hr
    rw [← FileAnswers.finding_eq_drifted_iff, FileAnswers.finding_eq_unverified_iff.mpr hr]
    decide
  simp only [census, hdrifted, Set.ncard_empty, pooledWith_swept h hids huntracked,
    pooledWith_swept h hids hunchecked]

/-- The order of the turns does not matter for what is left. -/
lemma swept_congr {other : List RecordId} (h : other.Perm ids) :
    p.swept files other = p.swept files ids := by
  unfold swept
  congr 1
  funext id
  rw [h.contains_eq]

/-- A sweep of a balanced pool. -/
lemma sweepRecords_of_perm (hquiet : ∀ fs s, ask (B.close fs s) = ask s) (h : Balanced p)
    (hids : ids.Perm p.pooledIds) :
    (sweepRecords ask B ids .empty p s).1 = p.census (ask s) ∧
      (sweepRecords ask B ids .empty p s).2.1 = p.swept (ask s) ids ∧
      Balanced (sweepRecords ask B ids .empty p s).2.1 ∧
      ask (sweepRecords ask B ids .empty p s).2.2 = ask s := by
  have hnodup : ids.Nodup := hids.nodup_iff.mpr (nodup_pooledIds h.toLinked)
  have hpooled : ∀ id ∈ ids, p.isPooled id = true := fun id hmem =>
    (mem_pooledIds_iff h.toLinked).mp (hids.mem_iff.mp hmem)
  rw [← noteAll_findings h.toLinked hids]
  exact sweepRecords_spec hquiet h hnodup hpooled .empty

end Swept

/-- Whatever files there are, and in whatever order a sweep takes the records of a pool, unless
something else happens in the meantime: the records that are pooled behind it are the ones from
before whose files have not drifted, and they are as they were; the report counts the records, the
ones that were evicted, the ones without a file to watch, and the ones whose file could not be
looked at; another order comes to the same; and another sweep evicts nothing and reports the rest
again. What a file is compared with is what it was on the host behind the turn that made the
record. -/
theorem sweep_exact (ask : σ → FileAnswers) (B : Backend σ ρ)
    (hquiet : ∀ fs s, ask (B.close fs s) = ask s) (config : PoolConfig) (registry : Registry)
    (s₀ : σ) (turns : List (Turn σ)) (s : σ) {ids : List RecordId}
    (hids : ids.Perm (run B turns (start config registry, s₀)).1.pooledIds) :
    let p := (run B turns (start config registry, s₀)).1
    let out := sweepRecords ask B ids .empty p s
    let q := out.2.1
    q.pooledSet = p.pooledSet \ p.pooledWith (·.Drifted (ask s)) ∧
    (∀ id ∈ q.pooledSet, q.record? id = p.record? id) ∧
    out.1 = ⟨p.pooledSet.ncard, (p.pooledSet \ q.pooledSet).ncard,
      (p.pooledWith (·.Untracked)).ncard, (p.pooledWith (·.Unchecked (ask s))).ncard⟩ ∧
    (∀ other : List RecordId, other.Perm p.pooledIds →
      (sweepRecords ask B other .empty p s).1 = out.1 ∧
      (sweepRecords ask B other .empty p s).2.1 = q) ∧
    (∀ later : List RecordId, later.Perm q.pooledIds →
      let again := sweepRecords ask B later .empty q out.2.2
      again.1 = ⟨q.pooledSet.ncard, 0, out.1.skipped, out.1.unverified⟩ ∧ again.2.1 = q) ∧
    (∀ id record b, p.record? id = some record → record.backing = some b →
      ∃ before turn, before ++ [turn] <+: turns ∧
        (run B before (start config registry, s₀)).1.record? id = none ∧
        (B.host (run B (before ++ [turn]) (start config registry, s₀)).2).snapshot b.path =
          .ok b.snapshot) := by
  intro p out q
  have hbalanced : Balanced p := balanced_run B turns (balanced_start config registry)
  have hlinked := hbalanced.toLinked
  obtain ⟨hreport, hpool, hafter, hask⟩ := sweepRecords_of_perm (s := s) hquiet hbalanced hids
  have hout : out.1 = p.census (ask s) := hreport
  have hq : q = p.swept (ask s) ids := hpool
  have hleft : q.pooledSet = p.pooledSet \ p.pooledWith (·.Drifted (ask s)) := by
    rw [hq, pooledSet_swept hlinked hids]
  refine ⟨hleft, ?_, ?_, ?_, ?_, ?_⟩
  · intro id hid
    rw [hq] at hid ⊢
    exact record?_swept hlinked hids hid
  · have hgone : p.pooledSet \ q.pooledSet = p.pooledWith (·.Drifted (ask s)) := by
      rw [hleft]
      exact Set.sdiff_sdiff_cancel_left fun id hid => hid.1
    rw [hgone, hout]
    rfl
  · intro other hother
    obtain ⟨hreport', hpool', -⟩ := sweepRecords_of_perm (s := s) hquiet hbalanced hother
    rw [hreport', hpool', hout, hq, swept_congr (hother.trans hids.symm)]
    exact ⟨rfl, rfl⟩
  · intro later hlater
    have hlater' : later.Perm (p.swept (ask s) ids).pooledIds := hq ▸ hlater
    have hstill : Linked (p.swept (ask s) ids) := hpool ▸ hafter.toLinked
    have hasks : ask out.2.2 = ask s := hask
    have hagain := sweepRecords_of_perm (p := q) (s := out.2.2) hquiet hafter hlater
    rw [hasks, hq, census_swept hlinked hids, swept_swept hlinked hids hstill hlater'] at hagain
    rw [hq, hout]
    exact ⟨hagain.1, hagain.2.1⟩
  · intro id record b hr hb
    obtain ⟨before, turn, hprefix, hnone, hsnapshot⟩ := exists_made turns hr
    exact ⟨before, turn, hprefix, hnone, hsnapshot b hb⟩

/-! ### An archive that is touched -/

/-- The root address of a filesystem that is not in a file. -/
def memoryRoot : Url := ⟨"mem".toList, none, "/x!/".toList, none, none⟩

/-- The provider for archives, and one that needs no files. -/
def twoProviders : World :=
  { sampleWorld with
    providers := sampleWorld.providers ++ [.scripted ⟨["mem".toList], none, false, [], []⟩] }

/-- A filesystem of either provider is mounted, and the archive is touched. -/
def mountBoth : List (Turn World) :=
  [.acquire 0 sampleRoot.text sampleRoot, .acquire 1 memoryRoot.text memoryRoot,
    .elsewhere Sweeping.touch]

def touched : Pool ProvidedResource × World :=
  run World.backend mountBoth (start {} sampleRegistry, twoProviders)

/-- Closing a filesystem leaves the files alone. -/
lemma answers_close (fs : FileSystemId) (w : World) :
    World.backend.answers (World.backend.close fs w) = World.backend.answers w := by
  change (World.close fs w).host.answers = w.host.answers
  unfold World.close
  split <;> rfl

/-- The record of the archive is evicted, the other one stays as it is, and the next sweep reports
nothing but that it is there. -/
theorem sweep_exact_of_touched :
    (∀ fs w, World.backend.answers (World.backend.close fs w) = World.backend.answers w) ∧
    List.Perm [1, 0] touched.1.pooledIds ∧
    let out := sweepRecords World.backend.answers World.backend [1, 0] .empty touched.1 touched.2
    out.2.1.isPooled 0 = false ∧ out.2.1.record? 1 = touched.1.record? 1 ∧
      (touched.1.sweep World.backend touched.2).1 = out.1 ∧
      (out.2.1.sweep World.backend out.2.2).1.evicted = 0 := by
  have hids : List.Perm [1, 0] touched.1.pooledIds := by decide +kernel
  have hdrifts : touched.1.drifts (World.backend.answers touched.2) 0 = true := by decide +kernel
  have hpooled : touched.1.isPooled 0 = true := by decide +kernel
  have hstays : (sweepRecords World.backend.answers World.backend [1, 0] .empty touched.1
      touched.2).2.1.isPooled 1 = true := by decide +kernel
  have hswept := sweep_exact World.backend.answers World.backend answers_close {} sampleRegistry
    twoProviders mountBoth touched.2 hids
  rw [← touched] at hswept
  generalize touched = st at *
  obtain ⟨hleft, hsame, -, horder, hagain, -⟩ := hswept
  obtain ⟨record, hr, hdrifted⟩ := drifts_iff.mp hdrifts
  refine ⟨answers_close, hids, ?_, hsame 1 hstays, (horder _ (List.Perm.refl _)).1, ?_⟩
  · rw [Bool.eq_false_iff]
    intro hp
    exact (hleft.le hp).2 ⟨hpooled, record, hr, hdrifted⟩
  · exact congrArg SweepReport.evicted (hagain _ (List.Perm.refl _)).1

end Pool

end ContentMounts
