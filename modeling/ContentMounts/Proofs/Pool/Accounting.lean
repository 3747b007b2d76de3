import ContentMounts.Proofs.Pool.Change
import ContentMounts.Proofs.Text.Order

/-!
# Reference accounting

`Balanced` is the invariant of a pool: no key is bound twice, a key leads to a record of that key, a
record is defunct exactly if it is not pooled, and a pooled record counts the handles on it that
have not been released. Every change preserves it (`Balanced.of_change`), so it holds behind every
run (`balanced_run`). A record that has left the pool is never touched again (`frozen_run`).

The count of a record speaks of the handles *on that very record*: a handle whose record was evicted
has no part in the count of the record that was mounted under the same key afterwards.
-/

namespace ContentMounts

namespace Pool

variable {σ ρ : Type}

/-- Keys, records and handles of a pool belong together. -/
structure Linked (p : Pool ρ) : Prop where
  /-- No key is bound twice. -/
  nodup : (Assoc.keys p.mounts).Nodup
  /-- A key leads to a record of that key. -/
  keyed : ∀ {key : Text} {id : RecordId}, p.mounts.lookup key = some id →
    ∃ record, p.record? id = some record ∧ record.key.text = key
  /-- A handle is on a record that was made. -/
  known : ∀ handle ∈ p.handles, handle.record < p.records.length
  /-- A record is defunct exactly if it is not pooled. -/
  settled : ∀ {id : RecordId} {record : MountRecord}, p.record? id = some record →
    record.defunct = !p.isPooled id

/-- A record counts the handles on it that have not been released, if it is pooled. -/
def Counts (p : Pool ρ) (id : RecordId) : Prop :=
  ∀ record, p.record? id = some record → p.isPooled id = true →
    record.references = p.holders id ∧ 0 < record.references

/-- The invariant of a pool. -/
structure Balanced (p : Pool ρ) : Prop extends Linked p where
  counted : ∀ id, p.Counts id

/-! ## Handles in a list -/

/-- The number of hits in a list where one element is changed. -/
lemma countP_modify {α : Type} (q : α → Bool) (f : α → α) {l : List α} {i : Nat} {a : α}
    (h : l[i]? = some a) :
    (l.modify i f).countP q + (if q a then 1 else 0) = l.countP q + if q (f a) then 1 else 0 := by
  induction l generalizing i with
  | nil => simp at h
  | cons b rest ih =>
    cases i with
    | zero =>
      cases h
      simp only [List.modify_zero_cons, List.countP_cons]
      omega
    | succ i =>
      have hrest := ih (i := i) (by simpa using h)
      simp only [List.modify_succ_cons, List.countP_cons]
      omega

section Handles

variable {p : Pool ρ}

/-- Marking a handle does not change who holds which record. -/
lemma holders_marked {h : HandleId} {handle : MountHandle ρ} (hh : p.handle? h = some handle)
    (hs : handle.state = .live) (id : RecordId) :
    (p.setHandle h .marked).holders id = p.holders id := by
  have hcount := countP_modify (fun handle : MountHandle ρ =>
    handle.record == id && handle.state != .released)
    (fun handle => { handle with state := .marked }) hh
  simp only [hs] at hcount
  exact Nat.add_right_cancel hcount

/-- Releasing a marked handle takes one holder from its record and none from the others. -/
lemma holders_released {h : HandleId} {handle : MountHandle ρ} (hh : p.handle? h = some handle)
    (hs : handle.state = .marked) (id : RecordId) :
    (p.setHandle h .released).holders id + (if handle.record = id then 1 else 0) =
      p.holders id := by
  have hcount := countP_modify (fun handle : MountHandle ρ =>
    handle.record == id && handle.state != .released)
    (fun handle => { handle with state := .released }) hh
  simpa [hs, holders, setHandle] using hcount

/-- A new handle is one more holder of its record. -/
lemma holders_addHandle (id j : RecordId) (root : ρ) :
    (p.addHandle id root).2.holders j = p.holders j + if id = j then 1 else 0 := by
  simp [holders, addHandle, List.countP_append, List.countP_cons]

/-- A handle on a record that is in the pool already is one more holder of it. -/
lemma holders_share (id j : RecordId) (root : ρ) :
    (p.share id root).2.holders j = p.holders j + if id = j then 1 else 0 :=
  holders_addHandle (p := p.modifyRecord id fun r => { r with references := r.references + 1 })
    id j root

/-- A record is made with one holder. -/
lemma holders_addRecord (host : Host) (key : Url) (fs : FileSystemId) (root : ρ) (j : RecordId) :
    (p.addRecord host key fs root).2.holders j =
      p.holders j + if p.records.length = j then 1 else 0 :=
  holders_addHandle p.records.length j root

/-- A record that is just being made has no holder. -/
lemma holders_length (hk : ∀ handle ∈ p.handles, handle.record < p.records.length) :
    p.holders p.records.length = 0 := by
  unfold holders
  rw [List.countP_eq_zero]
  intro handle hmem
  have hlt := hk handle hmem
  have hne : (handle.record == p.records.length) = false := by simpa using Nat.ne_of_lt hlt
  simp [hne]

end Handles

/-! ## What is pooled when a record comes or goes -/

section Pooled

variable {p : Pool ρ}

/-- A record that is made is pooled, and the others are as before. -/
lemma isPooled_addRecord {key : Url} (hfree : p.mounts.lookup key.text = none) (host : Host)
    (fs : FileSystemId) (root : ρ) (j : RecordId) :
    (p.addRecord host key fs root).2.isPooled j =
      if j = p.records.length then true else p.isPooled j := by
  rw [Bool.eq_iff_iff, isPooled_iff, record?_addRecord]
  have hmounts : (p.addRecord host key fs root).2.mounts =
      Assoc.put key.text p.records.length p.mounts := rfl
  rw [hmounts]
  by_cases hj : j = p.records.length
  · simp [hj, MountRecord.fresh, Assoc.lookup_put_self]
  · rw [if_neg hj, if_neg hj, isPooled_iff]
    refine exists_congr fun record => and_congr_right fun _ => ?_
    by_cases hkey : record.key.text = key.text
    · rw [hkey, Assoc.lookup_put_self, hfree]
      simpa using Ne.symm hj
    · rw [Assoc.lookup_put_ne hkey]

/-- A record that is taken out is not pooled any more, and the others are as before. -/
lemma isPooled_unpool {id : RecordId} {record : MountRecord} (hp : p.isPooled id = true)
    (hr : p.record? id = some record) (j : RecordId) :
    (p.unpool id record.key).isPooled j = (p.isPooled j && j != id) := by
  obtain ⟨r, hr', hlook⟩ := (isPooled_iff p id).mp hp
  obtain rfl : record = r := Option.some.inj (hr.symm.trans hr')
  have hmod : (p.unpool id record.key).isPooled j =
      ({ p with mounts := Assoc.erase record.key.text p.mounts } : Pool ρ).isPooled j :=
    isPooled_modifyRecord _ id j fun _ => rfl
  rw [hmod, Bool.eq_iff_iff, Bool.and_eq_true, bne_iff_ne, isPooled_iff, isPooled_iff]
  constructor
  · rintro ⟨other, ho, hother⟩
    have hne : other.key.text ≠ record.key.text := by
      intro heq
      rw [heq, Assoc.lookup_erase_self] at hother
      cases hother
    rw [Assoc.lookup_erase_ne hne] at hother
    refine ⟨⟨other, ho, hother⟩, ?_⟩
    rintro rfl
    exact hne (congrArg (·.key.text) (Option.some.inj (ho.symm.trans hr)))
  · rintro ⟨⟨other, ho, hother⟩, hj⟩
    refine ⟨other, ho, ?_⟩
    rw [Assoc.lookup_erase_ne, hother]
    intro heq
    rw [heq, hlook] at hother
    exact hj (Option.some.inj hother).symm

end Pooled

/-! ## What belongs together stays together -/

namespace Linked

variable {p : Pool ρ}

/-- A key without a pooled record is not bound. -/
lemma lookup_eq_none (h : Linked p) {key : Url} (hfree : p.pooled? key = none) :
    p.mounts.lookup key.text = none := by
  cases hlook : p.mounts.lookup key.text with
  | none => rfl
  | some id =>
    obtain ⟨record, hr, -⟩ := h.keyed hlook
    rw [pooled?_eq_some_iff.mpr ⟨hlook, hr⟩] at hfree
    cases hfree

/-- The record that a key leads to is pooled. -/
lemma isPooled_of_pooled? (h : Linked p) {key : Url} {id : RecordId} {record : MountRecord}
    (hp : p.pooled? key = some (id, record)) : p.isPooled id = true := by
  obtain ⟨hlook, hr⟩ := pooled?_eq_some_iff.mp hp
  obtain ⟨r, hr', hkey⟩ := h.keyed hlook
  exact (isPooled_iff p id).mpr ⟨r, hr', hkey ▸ hlook⟩

/-- A change of a record that keeps its key and does not make it defunct. -/
lemma modifyRecord (h : Linked p) {f : MountRecord → MountRecord}
    (hkey : ∀ r, (f r).key = r.key) (hdefunct : ∀ r, (f r).defunct = r.defunct) (id : RecordId) :
    Linked (p.modifyRecord id f) where
  nodup := h.nodup
  keyed := by
    intro k j hj
    obtain ⟨r, hr, hk⟩ := h.keyed hj
    rw [record?_modifyRecord, hr]
    split
    · exact ⟨f r, rfl, by rw [hkey, hk]⟩
    · exact ⟨r, rfl, hk⟩
  known := by
    have hlen : (p.modifyRecord id f).records.length = p.records.length := List.length_modify ..
    rw [hlen]
    exact h.known
  settled := by
    intro j r hr
    rw [record?_modifyRecord] at hr
    rw [isPooled_modifyRecord p id j hkey]
    split at hr
    · obtain ⟨old, hold, hf⟩ := Option.map_eq_some_iff.mp hr
      rw [← hf, hdefunct]
      exact h.settled hold
    · exact h.settled hr

/-- A change of the state of a handle. -/
lemma setHandle (h : Linked p) (id : HandleId) (state : HandleState) :
    Linked (p.setHandle id state) where
  nodup := h.nodup
  keyed := h.keyed
  known := by
    intro handle hmem
    obtain ⟨old, hold, hrecord, -⟩ := exists_of_mem_setHandle p hmem
    rw [← hrecord]
    exact h.known old hold
  settled := h.settled

/-- A new handle on a record. -/
lemma addHandle (h : Linked p) {id : RecordId} (hid : id < p.records.length) (root : ρ) :
    Linked (p.addHandle id root).2 where
  nodup := h.nodup
  keyed := h.keyed
  known := by
    intro handle hmem
    rcases List.mem_append.mp hmem with hold | hnew
    · exact h.known handle hold
    · rw [List.mem_singleton.mp hnew]
      exact hid
  settled := h.settled

/-- One more reference on a record that was made. -/
lemma share (h : Linked p) {id : RecordId} (hid : id < p.records.length) (root : ρ) :
    Linked (p.share id root).2 := by
  have hmod : Linked (p.modifyRecord id fun r => { r with references := r.references + 1 }) :=
    h.modifyRecord (f := fun r => { r with references := r.references + 1 })
      (fun _ => rfl) (fun _ => rfl) id
  exact hmod.addHandle (by simpa [Pool.modifyRecord] using hid) root

/-- A handle that gives its reference back. -/
lemma giveBack (h : Linked p) (id : HandleId) (record : RecordId) :
    Linked (p.giveBack id record) :=
  (h.setHandle id .released).modifyRecord MountRecord.lower_key (fun _ => rfl) record

/-- A record made under a free key. -/
lemma addRecord (h : Linked p) {key : Url} (hfree : p.pooled? key = none) (host : Host)
    (fs : FileSystemId) (root : ρ) : Linked (p.addRecord host key fs root).2 where
  nodup := Assoc.nodup_keys_put h.nodup
  keyed := by
    intro k j hj
    have hj : (Assoc.put key.text p.records.length p.mounts).lookup k = some j := hj
    rw [record?_addRecord]
    by_cases hk : k = key.text
    · rw [hk, Assoc.lookup_put_self] at hj
      cases hj
      rw [if_pos rfl]
      exact ⟨_, rfl, hk.symm⟩
    · rw [Assoc.lookup_put_ne hk] at hj
      obtain ⟨r, hr, hkey⟩ := h.keyed hj
      have hlt : j < p.records.length := (record?_isSome_iff p j).mp (by rw [hr]; rfl)
      rw [if_neg (Nat.ne_of_lt hlt)]
      exact ⟨r, hr, hkey⟩
  known := by
    intro handle hmem
    have hlen : (p.addRecord host key fs root).2.records.length = p.records.length + 1 :=
      List.length_append
    rw [hlen]
    rcases List.mem_append.mp hmem with hold | hnew
    · exact Nat.lt_succ_of_lt (h.known handle hold)
    · rw [List.mem_singleton.mp hnew]
      exact Nat.lt_succ_self _
  settled := by
    intro j r hr
    rw [isPooled_addRecord (h.lookup_eq_none hfree)]
    rw [record?_addRecord] at hr
    split at hr
    · rw [if_pos ‹_›, ← Option.some.inj hr]
      rfl
    · rw [if_neg ‹_›]
      exact h.settled hr

/-- A pooled record is taken out of the pool. -/
lemma unpool (h : Linked p) {id : RecordId} {record : MountRecord}
    (hp : p.isPooled id = true) (hr : p.record? id = some record) :
    Linked (p.unpool id record.key) where
  nodup := Assoc.nodup_keys_erase h.nodup
  keyed := by
    intro k j hj
    have hj : (Assoc.erase record.key.text p.mounts).lookup k = some j := hj
    have hk : k ≠ record.key.text := by
      rintro rfl
      rw [Assoc.lookup_erase_self] at hj
      cases hj
    rw [Assoc.lookup_erase_ne hk] at hj
    obtain ⟨r, hr, hkey⟩ := h.keyed hj
    rw [record?_unpool, hr]
    split
    · exact ⟨_, rfl, hkey⟩
    · exact ⟨_, rfl, hkey⟩
  known := by
    have hlen : (p.unpool id record.key).records.length = p.records.length :=
      List.length_modify ..
    rw [hlen]
    exact h.known
  settled := by
    intro j r hr'
    rw [isPooled_unpool hp hr]
    rw [record?_unpool] at hr'
    by_cases hne : id = j
    · rw [if_pos hne] at hr'
      obtain ⟨old, -, rfl⟩ := Option.map_eq_some_iff.mp hr'
      simp [hne]
    · rw [if_neg hne] at hr'
      have hbne : (j != id) = true := by simpa using Ne.symm hne
      rw [hbne, Bool.and_true]
      exact h.settled hr'

end Linked

/-! ## The counts stay right -/

section Counts

variable {p : Pool ρ} {id : HandleId} {handle : MountHandle ρ}

/-- The count of a record goes up with its handles. -/
lemma counts_share {record : RecordId} {j : RecordId} (h : p.Counts j) (root : ρ) :
    (p.share record root).2.Counts j := by
  intro r hr hj
  rw [isPooled_share] at hj
  rw [record?_share] at hr
  rw [holders_share]
  split at hr
  · obtain ⟨old, hold, hadd⟩ := Option.map_eq_some_iff.mp hr
    have hcount := h old hold hj
    rw [if_pos ‹record = j›, ← hadd]
    exact ⟨congrArg (· + 1) hcount.1, Nat.succ_pos _⟩
  · rw [if_neg ‹¬ record = j›]
    exact h r hr hj

/-- A record is made with one handle, and the others do not get any. -/
lemma counts_addRecord (hp : Balanced p) {key : Url} (hfree : p.pooled? key = none) (host : Host)
    (fs : FileSystemId) (root : ρ) (j : RecordId) : (p.addRecord host key fs root).2.Counts j := by
  intro r hr hj
  rw [isPooled_addRecord (hp.lookup_eq_none hfree)] at hj
  rw [record?_addRecord] at hr
  rw [holders_addRecord]
  by_cases hnew : j = p.records.length
  · rw [if_pos hnew] at hr
    rw [← Option.some.inj hr, hnew, holders_length hp.known, if_pos rfl]
    exact ⟨rfl, Nat.one_pos⟩
  · rw [if_neg hnew] at hr hj
    rw [if_neg (Ne.symm hnew)]
    exact hp.counted j r hr hj

/-- Marking a handle does not concern the counts. -/
lemma counts_marked {j : RecordId} (h : p.Counts j) (hh : p.handle? id = some handle)
    (hs : handle.state = .live) : (p.setHandle id .marked).Counts j := by
  intro r hr hj
  rw [holders_marked hh hs]
  exact h r hr hj

/-- Releasing a handle concerns the count of its record only. -/
lemma counts_released_of_ne {j : RecordId} (h : p.Counts j) (hh : p.handle? id = some handle)
    (hs : handle.state = .marked) (hne : handle.record ≠ j) :
    (p.setHandle id .released).Counts j := by
  intro r hr hj
  have hrel := holders_released hh hs j
  rw [if_neg hne, Nat.add_zero] at hrel
  rw [hrel]
  exact h r hr hj

/-- A reference that is given back concerns the count of its record only. -/
lemma counts_giveBack_of_ne {j : RecordId} (h : p.Counts j) (hh : p.handle? id = some handle)
    (hs : handle.state = .marked) (hne : handle.record ≠ j) :
    (p.giveBack id handle.record).Counts j := by
  intro r hr hj
  rw [isPooled_giveBack] at hj
  rw [record?_giveBack, if_neg hne] at hr
  exact counts_released_of_ne h hh hs hne r hr hj

/-- The reference that a handle gives back is the one it held. -/
lemma counts_giveBack {record : MountRecord} (h : p.Counts handle.record)
    (hh : p.handle? id = some handle) (hs : handle.state = .marked)
    (hr : p.record? handle.record = some record) (hpos : record.references - 1 ≠ 0) :
    (p.giveBack id handle.record).Counts handle.record := by
  intro r hr' hj
  rw [isPooled_giveBack] at hj
  rw [record?_giveBack, if_pos rfl, hr] at hr'
  obtain rfl : record.lower = r := Option.some.inj hr'
  have hrel := holders_released hh hs handle.record
  rw [if_pos rfl] at hrel
  have hcount := (h record hr hj).1
  change record.references - 1 = (p.setHandle id .released).holders handle.record ∧
    0 < record.references - 1
  omega

/-- Taking a record out of the pool does not concern the counts of the others. -/
lemma counts_unpool {i : RecordId} {record : MountRecord} (hp : p.isPooled i = true)
    (hr : p.record? i = some record) (h : ∀ j, i ≠ j → p.Counts j) (j : RecordId) :
    (p.unpool i record.key).Counts j := by
  intro r hr' hj
  rw [isPooled_unpool hp hr, Bool.and_eq_true, bne_iff_ne] at hj
  rw [record?_unpool, if_neg (Ne.symm hj.2)] at hr'
  exact h j (Ne.symm hj.2) r hr' hj.1

end Counts

/-! ## Every change preserves the invariant -/

/-- A pool without mounts, records and handles is balanced. -/
lemma balanced_start (config : PoolConfig) (registry : Registry) :
    Balanced (start config registry : Pool ρ) where
  nodup := List.nodup_nil
  keyed := by
    intro key id h
    cases h
  known := by
    intro handle h
    cases h
  settled := by
    intro id record h
    cases h
  counted := by
    intro id record h
    cases h

/-- What a turn can do to a balanced pool leaves it balanced. -/
theorem Balanced.of_change {p q : Pool ρ} (h : Balanced p) (hc : Change p q) : Balanced q := by
  cases hc with
  | same => exact h
  | registered registry => exact ⟨⟨h.nodup, h.keyed, h.known, h.settled⟩, h.counted⟩
  | shared root hp =>
    have hid := (record?_isSome_iff p _).mp
      (Option.isSome_of_eq_some (pooled?_eq_some_iff.mp hp).2)
    exact ⟨h.toLinked.share hid root, fun j => counts_share (h.counted j) root⟩
  | added host fs root hfree =>
    exact ⟨h.toLinked.addRecord hfree host fs root, counts_addRecord h hfree host fs root⟩
  | marked hh hs =>
    exact ⟨h.toLinked.setHandle _ _, fun j => counts_marked (h.counted j) hh hs⟩
  | dropped hh hs hp =>
    refine ⟨h.toLinked.setHandle _ _, fun j r hr hj => ?_⟩
    refine counts_released_of_ne (h.counted j) hh hs ?_ r hr hj
    rintro rfl
    rw [isPooled_setHandle, hp] at hj
    cases hj
  | @lowered id handle record hh hs hp hr hpos =>
    refine ⟨h.toLinked.giveBack _ _, fun j => ?_⟩
    by_cases hne : handle.record = j
    · rw [← hne]
      exact counts_giveBack (h.counted _) hh hs hr hpos
    · exact counts_giveBack_of_ne (h.counted j) hh hs hne
  | @retired id handle record hh hs hp hr hzero =>
    have hp' : (p.giveBack id handle.record).isPooled handle.record = true := by
      rw [isPooled_giveBack, hp]
    have hr' := record?_giveBack_self hr id
    rw [← record.lower_key]
    exact ⟨(h.toLinked.giveBack _ _).unpool hp' hr',
      counts_unpool hp' hr' fun j hne => counts_giveBack_of_ne (h.counted j) hh hs hne⟩
  | evicted hp hr => exact ⟨h.toLinked.unpool hp hr, counts_unpool hp hr fun j _ => h.counted j⟩

/-- A pool is balanced behind every run. -/
theorem balanced_run (B : Backend σ ρ) (turns : List (Turn σ)) {st : Pool ρ × σ}
    (h : Balanced st.1) : Balanced (run B turns st).1 := by
  induction turns generalizing st with
  | nil => exact h
  | cons turn turns ih => exact ih (h.of_change (step_change B turn st))

/-! ## Records that have left the pool -/

/-- What a turn can do to a pool leaves the records that are not pooled as they are. -/
lemma frozen_of_change {p q : Pool ρ} (h : Balanced p) (hc : Change p q) {id : RecordId}
    {record : MountRecord} (hr : p.record? id = some record) (hout : p.isPooled id = false) :
    q.record? id = some record ∧ q.isPooled id = false := by
  have hne : ∀ {j : RecordId}, p.isPooled j = true → j ≠ id := by
    rintro j hj rfl
    rw [hout] at hj
    cases hj
  cases hc with
  | same => exact ⟨hr, hout⟩
  | registered registry => exact ⟨hr, hout⟩
  | shared root hp =>
    rw [record?_share, if_neg (hne (h.isPooled_of_pooled? hp)), isPooled_share]
    exact ⟨hr, hout⟩
  | added host fs root hfree =>
    have hlt := (record?_isSome_iff p id).mp (Option.isSome_of_eq_some hr)
    rw [record?_addRecord, isPooled_addRecord (h.lookup_eq_none hfree),
      if_neg (Nat.ne_of_lt hlt), if_neg (Nat.ne_of_lt hlt)]
    exact ⟨hr, hout⟩
  | marked hh hs => exact ⟨hr, hout⟩
  | dropped hh hs hp => exact ⟨hr, hout⟩
  | lowered hh hs hp hr' hpos =>
    rw [record?_giveBack, if_neg (hne hp), isPooled_giveBack]
    exact ⟨hr, hout⟩
  | @retired i handle old hh hs hp hr' hzero =>
    have hp' : (p.giveBack i handle.record).isPooled handle.record = true := by
      rw [isPooled_giveBack, hp]
    rw [← old.lower_key, isPooled_unpool hp' (record?_giveBack_self hr' i), record?_unpool,
      if_neg (hne hp), record?_giveBack, if_neg (hne hp), isPooled_giveBack, hout]
    exact ⟨hr, rfl⟩
  | evicted hp hr' =>
    rw [record?_unpool, if_neg (hne hp), isPooled_unpool hp hr', hout]
    exact ⟨hr, rfl⟩

/-- A record that has left the pool stays outside, and nothing of it changes any more. -/
theorem frozen_run (B : Backend σ ρ) (turns : List (Turn σ)) {st : Pool ρ × σ}
    (h : Balanced st.1) {id : RecordId} {record : MountRecord}
    (hr : st.1.record? id = some record) (hout : st.1.isPooled id = false) :
    (run B turns st).1.record? id = some record ∧ (run B turns st).1.isPooled id = false := by
  induction turns generalizing st with
  | nil => exact ⟨hr, hout⟩
  | cons turn turns ih =>
    obtain ⟨hr', hout'⟩ := frozen_of_change h (step_change B turn st) hr hout
    exact ih (h.of_change (step_change B turn st)) hr' hout'

/-- A record that is pooled behind a run has been pooled all along. -/
lemma isPooled_of_run (B : Backend σ ρ) (turns : List (Turn σ)) {st : Pool ρ × σ}
    (h : Balanced st.1) {id : RecordId} {record : MountRecord}
    (hr : st.1.record? id = some record) (hp : (run B turns st).1.isPooled id = true) :
    st.1.isPooled id = true := by
  by_contra hout
  have hfrozen := frozen_run B turns h hr (Bool.eq_false_iff.mpr hout)
  rw [hfrozen.2] at hp
  cases hp

/-! ## The listing -/

/-- The listing names the keys that are bound. -/
lemma keys_listed {p : Pool ρ} {l : List (Text × RecordId)}
    (h : ∀ pair ∈ l, ∃ record, p.record? pair.2 = some record ∧ record.key.text = pair.1) :
    (l.filterMap fun pair => (p.record? pair.2).map fun r =>
      (⟨r.key, r.references, r.backing.map (·.path)⟩ : MountInfo)).map (·.key.text) =
      Assoc.keys l := by
  induction l with
  | nil => rfl
  | cons pair rest ih =>
    obtain ⟨record, hr, hkey⟩ := h pair List.mem_cons_self
    have hrest := ih fun other hmem => h other (List.mem_cons_of_mem _ hmem)
    rw [List.filterMap_cons, hr, Assoc.keys_cons, ← hkey, ← hrest]
    rfl

/-- The keys of a listing are strictly ascending. -/
lemma listMounts_pairwise {p : Pool ρ} (h : Linked p) :
    p.listMounts.Pairwise fun a b => Text.Before a.key.text b.key.text := by
  refine Text.pairwise_before_mergeSort (fun info : MountInfo => info.key.text) ?_
  have hlisted := keys_listed (p := p) (l := p.mounts) fun pair hmem =>
    h.keyed ((Assoc.lookup_eq_some_iff_mem h.nodup).mpr hmem)
  exact hlisted ▸ h.nodup

/-! ## Giving a reference back -/

/-- The release of a marked handle takes one reference from its record, if that is pooled. -/
lemma references_release (B : Backend σ ρ) {p : Pool ρ} (s : σ) {id : HandleId}
    {handle : MountHandle ρ} {record : MountRecord} (hh : p.handle? id = some handle)
    (hs : handle.state = .marked) (hp : p.isPooled handle.record = true)
    (hr : p.record? handle.record = some record) :
    ∃ after, (p.release B id s).1.record? handle.record = some after ∧
      after.references = record.references - 1 := by
  rw [release_eq B hh hs hp hr]
  have hlow := record?_giveBack_self hr id
  split
  · rw [record?_unpool, if_pos rfl, hlow]
    exact ⟨_, rfl, rfl⟩
  · exact ⟨_, hlow, rfl⟩

/-! ## The accounts of a pool -/

/-- Behind every run of a pool that starts empty, over any providers: a key is the key of its
record; the keys of the listing are strictly ascending; a pooled record counts the handles on it
that have not been released, and there is at least one; a record outside stays outside and as it is;
and a release that takes a reference away finds one to take. -/
theorem reference_accounting (B : Backend σ ρ) (config : PoolConfig) (registry : Registry) (s₀ : σ)
    (turns : List (Turn σ)) :
    let st := run B turns (start config registry, s₀)
    (∀ key id, (key, id) ∈ st.1.mounts →
      ∃ record, st.1.record? id = some record ∧ record.key.text = key) ∧
    (st.1.listMounts.Pairwise fun a b => Text.Before a.key.text b.key.text) ∧
    (∀ id record, st.1.record? id = some record → st.1.isPooled id = true →
      1 ≤ record.references ∧ record.references = st.1.holders id) ∧
    (∀ id record, st.1.record? id = some record → st.1.isPooled id = false →
      ∀ later, (run B later st).1.record? id = some record ∧
        (run B later st).1.isPooled id = false) ∧
    (∀ id handle record, st.1.handle? id = some handle → handle.state = .marked →
      st.1.isPooled handle.record = true → st.1.record? handle.record = some record →
      ∃ after, (st.1.release B id st.2).1.record? handle.record = some after ∧
        after.references + 1 = record.references) := by
  intro st
  have h : Balanced st.1 := balanced_run B turns (balanced_start config registry)
  refine ⟨?_, listMounts_pairwise h.toLinked, ?_, ?_, ?_⟩
  · intro key id hmem
    exact h.keyed ((Assoc.lookup_eq_some_iff_mem h.nodup).mpr hmem)
  · intro id record hr hp
    obtain ⟨hcount, hpos⟩ := h.counted id record hr hp
    exact ⟨hpos, hcount⟩
  · intro id record hr hout later
    exact frozen_run B later h hr hout
  · intro id handle record hh hs hp hr
    obtain ⟨after, hafter, hless⟩ := references_release B st.2 hh hs hp hr
    obtain ⟨-, hpos⟩ := h.counted handle.record record hr hp
    refine ⟨after, hafter, ?_⟩
    omega

end Pool

end ContentMounts
