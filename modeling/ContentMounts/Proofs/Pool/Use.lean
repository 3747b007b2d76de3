import ContentMounts.Proofs.Pool.Staleness

/-!
# Records in use

A record that is pooled stays so until it is evicted or the last handle on it is released
(`isPooled_run_iff`). The count of a record does not tell this of a whole run, for a record that has
left the pool keeps a count; `Upheld` is the invariant, and an eviction is the one turn that can
break it.
-/

namespace ContentMounts

namespace Pool

variable {σ ρ : Type} {p : Pool ρ} {id : RecordId}

/-- As long as there are handles on it the record is pooled. -/
def Upheld (p : Pool ρ) (id : RecordId) : Prop := 0 < p.holders id → p.isPooled id = true

namespace Upheld

/-- An acquisition makes no handle on a record that is not pooled. -/
lemma acquire {given : FileSystemId → Url → Prop} {answer : Except MountError HandleId}
    {q : Pool ρ} (hl : Linked p) (h : p.Upheld id) (hq : Acquired given p answer q) :
    q.Upheld id := by
  cases hq with
  | refused e => exact h
  | @shared fs key other record root hgiven hp =>
    intro hheld
    rw [isPooled_share]
    by_cases hother : other = id
    · exact hother ▸ hl.isPooled_of_pooled? hp
    · rw [holders_share, if_neg hother] at hheld
      exact h hheld
  | @added fs key host root hgiven hfree =>
    intro hheld
    rw [isPooled_addRecord (hl.lookup_eq_none hfree)]
    split
    · rfl
    · next hnew =>
      rw [holders_addRecord, if_neg (Ne.symm hnew)] at hheld
      exact h hheld

/-- Marking a handle takes it from nobody. -/
lemma mark (h : p.Upheld id) (number : HandleId) : (p.mark number).2.Upheld id := by
  rcases p.mark_eq_or number with hsame | ⟨handle, hh, hs, hq⟩
  · rw [hsame]
    exact h
  · rw [hq]
    intro hheld
    rw [holders_marked hh hs] at hheld
    exact h hheld

/-- What is held behind a release was held before it. -/
lemma holders_of_released {number : HandleId} {handle : MountHandle ρ}
    (hh : p.handle? number = some handle) (hs : handle.state = .marked)
    (hheld : 0 < (p.setHandle number .released).holders id) : 0 < p.holders id := by
  have hholders := holders_released hh hs id
  omega

/-- A release takes a record out of the pool only with its last handle. -/
lemma release (hb : Balanced p) (h : p.Upheld id) (B : Backend σ ρ) (number : HandleId) (s : σ) :
    (p.release B number s).1.Upheld id := by
  have hreleased := released_release B number p s
  generalize p.release B number s = out at hreleased ⊢
  cases hreleased with
  | unmarked _ => exact h
  | dropped hh hs _ => exact fun hheld => h (holders_of_released hh hs hheld)
  | lowered hh hs _ _ _ =>
    intro hheld
    rw [isPooled_giveBack]
    exact h (holders_of_released hh hs hheld)
  | @retired handle record hh hs hp hr hlast =>
    intro hheld
    have hbehind : 0 < (p.setHandle number .released).holders id := hheld
    have hp' : (p.giveBack number handle.record).isPooled handle.record = true := by
      rw [isPooled_giveBack, hp]
    -- The count that was one was that of the handle, so another record is meant.
    have hne : handle.record ≠ id := by
      rintro rfl
      have hholders := holders_released hh hs handle.record
      obtain ⟨hcount, -⟩ := hb.counted handle.record record hr hp
      rw [if_pos rfl] at hholders
      omega
    rw [← record.lower_key, isPooled_unpool hp' (record?_giveBack_self hr number),
      isPooled_giveBack, Bool.and_eq_true, bne_iff_ne]
    exact ⟨h (holders_of_released hh hs hbehind), Ne.symm hne⟩

/-- The eviction of another record. -/
lemma evict (h : p.Upheld id) {other : RecordId} (hne : id ≠ other) (B : Backend σ ρ) (s : σ) :
    (p.evict B other s).2.1.Upheld id := by
  have hevicted := evicted_evict B other p s
  generalize p.evict B other s = out at hevicted ⊢
  cases hevicted with
  | absent _ => exact h
  | retired hp hr =>
    intro hheld
    rw [isPooled_unpool hp hr, Bool.and_eq_true, bne_iff_ne]
    exact ⟨h hheld, hne⟩

lemma step (B : Backend σ ρ) {st : Pool ρ × σ} (hb : Balanced st.1) (h : st.1.Upheld id)
    {turn : Turn σ} (hturn : turn ≠ .evict id) : (Pool.step B turn st).1.Upheld id := by
  obtain ⟨p, s⟩ := st
  cases turn with
  | acquire provider input uri =>
    exact h.acquire hb.toLinked (acquired_acquireFrom B provider input uri p s)
  | mark number => exact h.mark number
  | release number => exact h.release hb B number s
  | evict other => exact h.evict (fun heq => hturn (heq ▸ rfl)) B s
  | register schemes provider =>
    obtain ⟨registry, hq⟩ := exists_registry_eq schemes provider p
    change ((p.registerProvider schemes provider).toOption.getD p).Upheld id
    rw [hq]
    exact h
  | navigate number entry => exact h
  | elsewhere change => exact h

lemma run (B : Backend σ ρ) {turns : List (Turn σ)} {st : Pool ρ × σ} (hb : Balanced st.1)
    (h : st.1.Upheld id) (hturns : .evict id ∉ turns) : (Pool.run B turns st).1.Upheld id := by
  induction turns generalizing st with
  | nil => exact h
  | cons turn turns ih =>
    obtain ⟨hne, hrest⟩ := List.ne_and_not_mem_of_not_mem_cons hturns
    exact ih (hb.of_change (step_change B turn st)) (h.step B hb (Ne.symm hne)) hrest

end Upheld

lemma isPooled_evict_self (B : Backend σ ρ) (p : Pool ρ) (id : RecordId) (s : σ) :
    (p.evict B id s).2.1.isPooled id = false := by
  have hevicted := evicted_evict B id p s
  generalize p.evict B id s = out at hevicted ⊢
  cases hevicted with
  | absent hout => exact hout
  | retired hp hr => rw [isPooled_unpool hp hr, bne_self_eq_false, Bool.and_false]

/-- A record that is evicted at some time of a run is outside when it ends. -/
lemma isPooled_run_of_evict (B : Backend σ ρ) {st : Pool ρ × σ} (hb : Balanced st.1)
    {record : MountRecord} (hr : st.1.record? id = some record) {turns : List (Turn σ)}
    (hturns : .evict id ∈ turns) : (run B turns st).1.isPooled id = false := by
  obtain ⟨before, behind, rfl⟩ := List.append_of_mem hturns
  rw [run_append, run_cons]
  obtain ⟨mid, hmid, -⟩ := exists_record?_of_run B before hr
  have hchange := step_change B (.evict id) (run B before st)
  obtain ⟨new, hnew, -⟩ := exists_record?_of_change hchange hmid
  exact (frozen_run B behind ((balanced_run B before hb).of_change hchange) hnew
    (isPooled_evict_self B _ id _)).2

/-- A pooled record stays pooled until it is evicted or the last handle on it is released. -/
theorem isPooled_run_iff (B : Backend σ ρ) {st : Pool ρ × σ} (hb : Balanced st.1)
    (hp : st.1.isPooled id = true) (turns : List (Turn σ)) :
    (run B turns st).1.isPooled id = true ↔
      .evict id ∉ turns ∧ 0 < (run B turns st).1.holders id := by
  constructor
  · intro hafter
    refine ⟨fun hevict => ?_, ?_⟩
    · obtain ⟨record, hr⟩ := exists_record_of_isPooled hp
      rw [isPooled_run_of_evict B hb hr hevict] at hafter
      cases hafter
    · obtain ⟨record, hr⟩ := exists_record_of_isPooled hafter
      obtain ⟨hcount, hpos⟩ := (balanced_run B turns hb).counted id record hr hafter
      exact hcount ▸ hpos
  · rintro ⟨hturns, hheld⟩
    have hupheld : st.1.Upheld id := fun _ => hp
    exact hupheld.run B hb hturns hheld

end Pool

end ContentMounts
