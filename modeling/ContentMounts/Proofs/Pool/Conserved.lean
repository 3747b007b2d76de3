import ContentMounts.Proofs.Pool.Log
import ContentMounts.Proofs.Pool.Use
import ContentMounts.Proofs.Provider.Custody

/-!
# What is conserved of filesystems

`Conserved` is the invariant that ties the records of a pool to the open filesystems of a provider
that keeps the contract `Custody`. It speaks of a pool, of the state of the providers and of the log
of what was opened and closed. In the middle of an acquisition one filesystem can be open that has
no record yet: it is `pending`, and is closed or gets its record in the same turn.

There is one lemma for each thing that can happen to a filesystem (`Conserved.keeps`,
`Conserved.opens`, `Conserved.closes`), one for a record that is made (`Conserved.addRecord`) and one
for a record that leaves the pool (`Conserved.unpool`).
-/

namespace ContentMounts

namespace Pool

variable {σ ρ : Type}

/-! ## Pools with the same records -/

/-- The records of two pools have the same filesystems and keys. -/
def SameRecords (p q : Pool ρ) : Prop :=
  ∀ id, (q.record? id).map (fun r => (r.fs, r.key)) = (p.record? id).map fun r => (r.fs, r.key)

namespace SameRecords

variable {p q : Pool ρ}

lemma refl (p : Pool ρ) : SameRecords p p := fun _ => rfl

lemma exists_record (h : SameRecords p q) {id : RecordId} {record : MountRecord}
    (hr : q.record? id = some record) :
    ∃ old, p.record? id = some old ∧ old.fs = record.fs ∧ old.key = record.key := by
  have hsame := h id
  rw [hr, Option.map_some] at hsame
  obtain ⟨old, hold, heq⟩ := Option.map_eq_some_iff.mp hsame.symm
  exact ⟨old, hold, congrArg Prod.fst heq, congrArg Prod.snd heq⟩

lemma symm (h : SameRecords p q) : SameRecords q p := fun id => (h id).symm

lemma modifyRecord (p : Pool ρ) {f : MountRecord → MountRecord} (hfs : ∀ r, (f r).fs = r.fs)
    (hkey : ∀ r, (f r).key = r.key) (id : RecordId) : SameRecords p (p.modifyRecord id f) := by
  intro j
  rw [record?_modifyRecord]
  split
  · rw [Option.map_map]
    exact congrArg (Option.map · (p.record? j)) (funext fun r => Prod.ext (hfs r) (hkey r))
  · rfl

lemma unpool (p : Pool ρ) (id : RecordId) (key : Url) : SameRecords p (p.unpool id key) :=
  modifyRecord { p with mounts := Assoc.erase key.text p.mounts }
    (f := fun r => { r with defunct := true }) (fun _ => rfl) (fun _ => rfl) id

end SameRecords

/-! ## The invariant -/

section Invariant

variable {B : Backend σ ρ} {provider : ProviderId} {C : Custody B provider}

/-- The filesystems of a provider that are open are those of the pooled records, and the pending
one. The log names all that it has opened, and each was closed once if it is not open any more. -/
structure Conserved (C : Custody B provider) (pending : Option FileSystemId) (p : Pool ρ)
    (st : σ × List Event) : Prop where
  valid : C.valid st.1
  known : ∀ {id record}, p.record? id = some record → C.known record.fs st.1
  keyed : ∀ {id record}, p.record? id = some record → C.own record.fs st.1 →
    B.rootUri record.fs st.1 = record.key
  /-- No two records share a filesystem of the provider. -/
  unique : ∀ {i j a b}, p.record? i = some a → p.record? j = some b → C.own a.fs st.1 →
    a.fs = b.fs → i = j
  isOpen_eq : ∀ {id record}, p.record? id = some record → C.own record.fs st.1 →
    B.isOpen record.fs st.1 = p.isPooled id
  /-- What is open has a record or is about to get one. -/
  covered : ∀ {f}, C.own f st.1 → B.isOpen f st.1 = true →
    pending = some f ∨ ∃ id record, p.record? id = some record ∧ record.fs = f
  opened_iff : ∀ f, Event.opened provider f ∈ st.2 ↔ C.own f st.1
  closings : ∀ {f}, C.own f st.1 → st.2.count (.closed f) = if B.isOpen f st.1 then 0 else 1
  /-- What has not been given out has not been closed. -/
  unclosed : ∀ {f}, ¬C.known f st.1 → Event.closed f ∉ st.2

variable {pending : Option FileSystemId} {p q : Pool ρ} {s s' : σ} {log : List Event}
  {f : FileSystemId}

namespace Conserved

section SameRecords

variable {st : σ × List Event} {id j : RecordId} {record other : MountRecord}

lemma known_of_sameRecords (h : Conserved C pending p st) (hq : SameRecords p q)
    (hr : q.record? id = some record) : C.known record.fs st.1 := by
  obtain ⟨old, hold, hfs, -⟩ := hq.exists_record hr
  rw [← hfs]
  exact h.known hold

lemma keyed_of_sameRecords (h : Conserved C pending p st) (hq : SameRecords p q)
    (hr : q.record? id = some record) (hown : C.own record.fs st.1) :
    B.rootUri record.fs st.1 = record.key := by
  obtain ⟨old, hold, hfs, hkey⟩ := hq.exists_record hr
  rw [← hfs] at hown ⊢
  rw [← hkey]
  exact h.keyed hold hown

lemma unique_of_sameRecords (h : Conserved C pending p st) (hq : SameRecords p q)
    (hr : q.record? id = some record) (ho : q.record? j = some other)
    (hown : C.own record.fs st.1) (heq : record.fs = other.fs) : id = j := by
  obtain ⟨old, hold, hfs, -⟩ := hq.exists_record hr
  obtain ⟨old', hold', hfs', -⟩ := hq.exists_record ho
  rw [← hfs] at hown heq
  rw [← hfs'] at heq
  exact h.unique hold hold' hown heq

lemma isOpen_eq_of_sameRecords (h : Conserved C pending p st) (hq : SameRecords p q)
    (hr : q.record? id = some record) (hown : C.own record.fs st.1) :
    B.isOpen record.fs st.1 = p.isPooled id := by
  obtain ⟨old, hold, hfs, -⟩ := hq.exists_record hr
  rw [← hfs] at hown ⊢
  exact h.isOpen_eq hold hown

lemma covered_of_sameRecords (h : Conserved C pending p st) (hq : SameRecords p q)
    (hown : C.own f st.1) (hopen : B.isOpen f st.1 = true) :
    pending = some f ∨ ∃ id record, q.record? id = some record ∧ record.fs = f := by
  refine (h.covered hown hopen).imp_right fun ⟨id, record, hr, hf⟩ => ?_
  obtain ⟨new, hnew, hfs, -⟩ := hq.symm.exists_record hr
  exact ⟨id, new, hnew, hfs.trans hf⟩

end SameRecords

/-- The invariant depends on the records' filesystems and keys, and on what is pooled. -/
lemma of_sameRecords {st : σ × List Event} (h : Conserved C pending p st) (hq : SameRecords p q)
    (hpooled : ∀ id, q.isPooled id = p.isPooled id) : Conserved C pending q st where
  valid := h.valid
  known := h.known_of_sameRecords hq
  keyed := h.keyed_of_sameRecords hq
  unique := h.unique_of_sameRecords hq
  isOpen_eq := by
    intro id record hr hown
    rw [hpooled]
    exact h.isOpen_eq_of_sameRecords hq hr hown
  covered := h.covered_of_sameRecords hq
  opened_iff := h.opened_iff
  closings := h.closings
  unclosed := h.unclosed

/-- What concerns none of the filesystems. -/
lemma keeps (h : Conserved C pending p (s, log)) (hk : C.Keeps B s s') :
    Conserved C pending p (s', log) where
  valid := hk.valid
  known hr := hk.known (h.known hr)
  keyed := by
    intro id record hr hown
    have hown' := (hk.own_iff _).mp hown
    exact (hk.rootUri_eq hown').trans (h.keyed hr hown')
  unique ha hb hown heq := h.unique ha hb ((hk.own_iff _).mp hown) heq
  isOpen_eq := by
    intro id record hr hown
    have hown' := (hk.own_iff _).mp hown
    exact (hk.isOpen_eq hown').trans (h.isOpen_eq hr hown')
  covered := by
    intro f hown hopen
    have hown' := (hk.own_iff f).mp hown
    exact h.covered hown' ((hk.isOpen_eq hown').symm.trans hopen)
  opened_iff f := (h.opened_iff f).trans (hk.own_iff f).symm
  closings := by
    intro f hown
    have hown' := (hk.own_iff f).mp hown
    rw [hk.isOpen_eq hown']
    exact h.closings hown'
  unclosed hf := h.unclosed fun hknown => hf (hk.known hknown)

/-- A filesystem that is opened is pending, and no record is for it. -/
lemma opens (h : Conserved C none p (s, log)) (ho : C.Opens B f s s') :
    Conserved C (some f) p (s', .opened provider f :: log) ∧
      ∀ {id record}, p.record? id = some record → record.fs ≠ f := by
  have hnew : ∀ {id record}, p.record? id = some record → record.fs ≠ f := by
    rintro id record hr rfl
    exact ho.fresh (h.known hr)
  have hold : ∀ {g}, g ≠ f → C.own g s' → C.own g s := fun hne hown =>
    ((ho.own_iff _).mp hown).resolve_right hne
  refine ⟨⟨ho.valid, fun hr => ho.known (h.known hr), ?_, ?_, ?_, ?_, ?_, ?_, ?_⟩, hnew⟩
  · intro id record hr hown
    have hown' := hold (hnew hr) hown
    exact (ho.rootUri_eq hown').trans (h.keyed hr hown')
  · exact fun ha hb hown heq => h.unique ha hb (hold (hnew ha) hown) heq
  · intro id record hr hown
    have hown' := hold (hnew hr) hown
    exact (ho.isOpen_eq hown').trans (h.isOpen_eq hr hown')
  · intro g hown hopen
    by_cases hg : g = f
    · exact .inl (congrArg some hg.symm)
    · have hown' := hold hg hown
      exact .inr ((h.covered hown' ((ho.isOpen_eq hown').symm.trans hopen)).resolve_left
        (by simp))
  · intro g
    rw [List.mem_cons, Event.opened.injEq, h.opened_iff, ho.own_iff]
    constructor
    · rintro (⟨-, hg⟩ | hown)
      · exact .inr hg
      · exact .inl hown
    · rintro (hown | hg)
      · exact .inr hown
      · exact .inl ⟨rfl, hg⟩
  · intro g hown
    rw [List.count_cons_of_ne (by simp)]
    by_cases hg : g = f
    · rw [hg, ho.isOpen_new, if_pos rfl]
      exact List.count_eq_zero.mpr (h.unclosed ho.fresh)
    · have hown' := hold hg hown
      rw [ho.isOpen_eq hown']
      exact h.closings hown'
  · intro g hunknown hin
    rcases List.mem_cons.mp hin with hbad | hin
    · cases hbad
    · exact h.unclosed (fun hknown => hunknown (ho.known hknown)) hin

/-- A filesystem that is closed is not pending any more, and its record has left the pool. -/
lemma closes (h : Conserved C pending p (s, log)) (hc : C.Closes B f s s')
    (hknown : C.known f s) (hopen : C.own f s → B.isOpen f s = true)
    (hpending : ∀ g, pending = some g → g = f) (hq : SameRecords p q)
    (hpooled : ∀ {id record}, q.record? id = some record → C.own record.fs s →
      q.isPooled id = (p.isPooled id && record.fs != f)) :
    Conserved C none q (s', .closed f :: log) where
  valid := hc.valid
  known hr := hc.known (h.known_of_sameRecords hq hr)
  keyed := by
    intro id record hr hown
    have hown' := (hc.own_iff _).mp hown
    exact (hc.rootUri_eq hown').trans (h.keyed_of_sameRecords hq hr hown')
  unique ha hb hown heq := h.unique_of_sameRecords hq ha hb ((hc.own_iff _).mp hown) heq
  isOpen_eq := by
    intro id record hr hown
    have hown' := (hc.own_iff _).mp hown
    rw [hc.isOpen_eq hown', hpooled hr hown', h.isOpen_eq_of_sameRecords hq hr hown']
  covered := by
    intro g hown hopen'
    have hown' := (hc.own_iff g).mp hown
    rw [hc.isOpen_eq hown', Bool.and_eq_true, bne_iff_ne] at hopen'
    rcases h.covered_of_sameRecords hq hown' hopen'.1 with hg | hcovered
    · exact absurd (hpending g hg) hopen'.2
    · exact .inr hcovered
  opened_iff g := by
    rw [List.mem_cons, h.opened_iff, hc.own_iff]
    exact or_iff_right (by simp)
  closings := by
    intro g hown
    have hown' := (hc.own_iff g).mp hown
    have hcount := h.closings hown'
    rw [hc.isOpen_eq hown']
    by_cases hg : g = f
    · subst hg
      rw [hopen hown', if_pos rfl] at hcount
      rw [List.count_cons_self, hcount, bne_self_eq_false, Bool.and_false]
      rfl
    · have hbne : (g != f) = true := by simpa using hg
      rw [List.count_cons_of_ne (by simpa using Ne.symm hg), hcount, hbne, Bool.and_true]
  unclosed := by
    intro g hunknown hin
    rcases List.mem_cons.mp hin with hbad | hin
    · cases hbad
      exact hunknown (hc.known hknown)
    · exact h.unclosed (fun hg => hunknown (hc.known hg)) hin

/-- A filesystem that gets a record is not pending any more. -/
lemma addRecord (h : Conserved C pending p (s, log)) (hl : Linked p) {key : Url}
    (hfree : p.pooled? key = none) (hknown : C.known f s)
    (hown : C.own f s → B.rootUri f s = key ∧ B.isOpen f s = true ∧
      ∀ {id record}, p.record? id = some record → record.fs ≠ f)
    (hpending : ∀ g, pending = some g → g = f) (host : Host) (root : ρ) :
    Conserved C none (p.addRecord host key f root).2 (s, log) := by
  have hcases : ∀ {id record}, (p.addRecord host key f root).2.record? id = some record →
      (id = p.records.length ∧ record.fs = f ∧ record.key = key) ∨
        (id ≠ p.records.length ∧ p.record? id = some record) := by
    intro id record hr
    rw [record?_addRecord] at hr
    split at hr
    · obtain rfl : MountRecord.fresh host key f = record := Option.some.inj hr
      exact .inl ⟨‹_›, rfl, rfl⟩
    · exact .inr ⟨‹_›, hr⟩
  have hpooled := isPooled_addRecord (hl.lookup_eq_none hfree) host f root
  constructor
  · exact h.valid
  · intro id record hr
    rcases hcases hr with ⟨-, hf, -⟩ | ⟨-, hold⟩
    · exact hf ▸ hknown
    · exact h.known hold
  · intro id record hr hrecord
    rcases hcases hr with ⟨-, hf, hkey⟩ | ⟨-, hold⟩
    · rw [hf] at hrecord ⊢
      rw [hkey]
      exact (hown hrecord).1
    · exact h.keyed hold hrecord
  · intro i j a b ha hb hrecord heq
    rcases hcases ha with ⟨hi, hfa, -⟩ | ⟨-, ha⟩
    · rcases hcases hb with ⟨hj, -, -⟩ | ⟨-, hb⟩
      · exact hi.trans hj.symm
      · rw [hfa] at hrecord heq
        exact absurd heq.symm ((hown hrecord).2.2 hb)
    · rcases hcases hb with ⟨-, hfb, -⟩ | ⟨-, hb⟩
      · rw [heq, hfb] at hrecord
        exact absurd (heq.trans hfb) ((hown hrecord).2.2 ha)
      · exact h.unique ha hb hrecord heq
  · intro id record hr hrecord
    rw [hpooled]
    rcases hcases hr with ⟨hi, hf, -⟩ | ⟨hi, hold⟩
    · rw [hf] at hrecord ⊢
      rw [if_pos hi]
      exact (hown hrecord).2.1
    · rw [if_neg hi]
      exact h.isOpen_eq hold hrecord
  · intro g hg hopen
    right
    rcases h.covered hg hopen with heq | ⟨id, record, hr, hf⟩
    · refine ⟨p.records.length, MountRecord.fresh host key f, ?_, (hpending g heq).symm⟩
      rw [record?_addRecord, if_pos rfl]
    · have hlt := (record?_isSome_iff p id).mp (Option.isSome_of_eq_some hr)
      refine ⟨id, record, ?_, hf⟩
      rw [record?_addRecord, if_neg (Nat.ne_of_lt hlt)]
      exact hr
  · exact h.opened_iff
  · exact h.closings
  · exact h.unclosed

/-- A record that leaves the pool takes its filesystem with it. -/
lemma unpool (h : Conserved C none p (s, log)) (hl : Linked p) {id : RecordId}
    {record : MountRecord} (hp : p.isPooled id = true) (hr : p.record? id = some record) :
    Conserved C none (p.unpool id record.key)
      (if record.defunct then (s, log) else B.logged.close record.fs (s, log)) := by
  have hdefunct : record.defunct = false := by rw [hl.settled hr, hp]; rfl
  rw [hdefunct, if_neg Bool.false_ne_true]
  refine h.closes (C.close_closes record.fs h.valid) (h.known hr)
    (fun hown => (h.isOpen_eq hr hown).trans hp) (fun g hg => by cases hg)
    (SameRecords.unpool p id record.key) fun {j other} ho hown => ?_
  rw [isPooled_unpool hp hr]
  obtain ⟨old, hold, hfs, -⟩ := (SameRecords.unpool p id record.key).exists_record ho
  -- an own filesystem has one record
  have hiff : j = id ↔ other.fs = record.fs := by
    rw [← hfs] at hown ⊢
    constructor
    · rintro rfl
      rw [Option.some.inj (hold.symm.trans hr)]
    · exact h.unique hold hr hown
  by_cases hj : j = id
  · rw [hj, hiff.mp hj, bne_self_eq_false, bne_self_eq_false]
  · have hne : other.fs ≠ record.fs := fun heq => hj (hiff.mpr heq)
    have hbne : (j != id) = true := by simpa using hj
    have hbne' : (other.fs != record.fs) = true := by simpa using hne
    rw [hbne, hbne']

/-- The record of a filesystem that is open is pooled under the filesystem's root address. -/
lemma exists_pooled?_of_isOpen (h : Conserved C none p (s, log)) (hown : C.own f s)
    (hopen : B.isOpen f s = true) :
    ∃ id record, p.pooled? (B.rootUri f s) = some (id, record) ∧ record.fs = f := by
  obtain ⟨id, record, hr, rfl⟩ := (h.covered hown hopen).resolve_left (by simp)
  have hp : p.isPooled id = true := (h.isOpen_eq hr hown).symm.trans hopen
  obtain ⟨same, hsame, hlook⟩ := (isPooled_iff p id).mp hp
  obtain rfl : record = same := Option.some.inj (hr.symm.trans hsame)
  rw [h.keyed hr hown]
  exact ⟨id, record, pooled?_eq_some_iff.mpr ⟨hlook, hr⟩, rfl⟩

end Conserved

end Invariant

end Pool

end ContentMounts
