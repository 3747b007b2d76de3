import ContentMounts.Proofs.Pool.Outcome

/-!
# What a turn does to a pool

`Pool.Change` lists the ways in which one turn can change a pool, apart from its providers and their
filesystems. `step_change` reads them off the outcomes of the operations; every invariant of a pool
is then a case analysis over nine small changes instead of one over the operations.

Only an acquisition makes records, and it makes them for the filesystems that were given for it
(`exists_acquire_of_step`).
-/

namespace ContentMounts

namespace Pool

variable {σ ρ : Type}

/-- The number of handles made on a record whose release has not run yet. -/
def holders (p : Pool ρ) (id : RecordId) : Nat :=
  p.handles.countP fun handle => handle.record == id && handle.state != .released

/-- What a turn can do to a pool. -/
inductive Change : Pool ρ → Pool ρ → Prop
  /-- Nothing. -/
  | same (p : Pool ρ) : Change p p
  /-- Another provider is registered. -/
  | registered (p : Pool ρ) (registry : Registry) : Change p { p with registry }
  /-- A pooled record gets one more handle. -/
  | shared {p : Pool ρ} {key : Url} {id : RecordId} {record : MountRecord} (root : ρ) :
      p.pooled? key = some (id, record) → Change p (p.share id root).2
  /-- A record is made under a key that was free. -/
  | added {p : Pool ρ} {key : Url} (host : Host) (fs : FileSystemId) (root : ρ) :
      p.pooled? key = none → Change p (p.addRecord host key fs root).2
  /-- A live handle is marked. -/
  | marked {p : Pool ρ} {id : HandleId} {handle : MountHandle ρ} :
      p.handle? id = some handle → handle.state = .live → Change p (p.setHandle id .marked)
  /-- A marked handle is released, but its record has left the pool. -/
  | dropped {p : Pool ρ} {id : HandleId} {handle : MountHandle ρ} :
      p.handle? id = some handle → handle.state = .marked →
      p.isPooled handle.record = false → Change p (p.setHandle id .released)
  /-- A marked handle is released, and other handles hold its record. -/
  | lowered {p : Pool ρ} {id : HandleId} {handle : MountHandle ρ} {record : MountRecord} :
      p.handle? id = some handle → handle.state = .marked →
      p.isPooled handle.record = true → p.record? handle.record = some record →
      record.references - 1 ≠ 0 → Change p (p.giveBack id handle.record)
  /-- A marked handle is released, and it was the last one to hold its record. -/
  | retired {p : Pool ρ} {id : HandleId} {handle : MountHandle ρ} {record : MountRecord} :
      p.handle? id = some handle → handle.state = .marked →
      p.isPooled handle.record = true → p.record? handle.record = some record →
      record.references - 1 = 0 →
      Change p ((p.giveBack id handle.record).unpool handle.record record.key)
  /-- A pooled record is evicted. -/
  | evicted {p : Pool ρ} {id : RecordId} {record : MountRecord} :
      p.isPooled id = true → p.record? id = some record → Change p (p.unpool id record.key)

/-! ## One turn -/

lemma acquireFrom_change (B : Backend σ ρ) (provider : ProviderId) (input : Text) (uri : Url)
    (p : Pool ρ) (s : σ) : Change p (p.acquireFrom B provider input uri s).2.1 := by
  have hacquired := acquired_acquireFrom B provider input uri p s
  generalize (p.acquireFrom B provider input uri s).1 = answer at hacquired
  generalize (p.acquireFrom B provider input uri s).2.1 = q at hacquired ⊢
  cases hacquired with
  | refused e => exact .same p
  | shared root _ hp => exact .shared root hp
  | added host root _ hp => exact .added host _ root hp

/-- A release gives the reference of a marked handle back, or leaves the pool alone. -/
lemma release_change (B : Backend σ ρ) (id : HandleId) (p : Pool ρ) (s : σ) :
    Change p (p.release B id s).1 := by
  have hreleased := released_release B id p s
  generalize p.release B id s = out at hreleased ⊢
  cases hreleased with
  | unmarked _ => exact .same p
  | dropped hh hs hp => exact .dropped hh hs hp
  | lowered hh hs hp hr hheld => exact .lowered hh hs hp hr hheld
  | retired hh hs hp hr hlast => exact .retired hh hs hp hr hlast

/-- An eviction takes a pooled record out of the pool, or leaves the pool alone. -/
lemma evict_change (B : Backend σ ρ) (id : RecordId) (p : Pool ρ) (s : σ) :
    Change p (p.evict B id s).2.1 := by
  have hevicted := evicted_evict B id p s
  generalize p.evict B id s = out at hevicted ⊢
  cases hevicted with
  | absent _ => exact .same p
  | retired hp hr => exact .evicted hp hr

/-- Marking changes live handles only. -/
lemma mark_change (id : HandleId) (p : Pool ρ) : Change p (p.mark id).2 := by
  rcases p.mark_eq_or id with hsame | ⟨handle, hh, hs, hq⟩
  · rw [hsame]
    exact .same p
  · rw [hq]
    exact .marked hh hs

lemma registerProvider_change (schemes : List Text) (provider : ProviderId) (p : Pool ρ) :
    Change p ((p.registerProvider schemes provider).toOption.getD p) := by
  obtain ⟨registry, hq⟩ := exists_registry_eq schemes provider p
  rw [hq]
  exact .registered p registry

/-- Every turn is one of the changes. -/
theorem step_change (B : Backend σ ρ) (turn : Turn σ) (st : Pool ρ × σ) :
    Change st.1 (step B turn st).1 := by
  obtain ⟨p, s⟩ := st
  cases turn with
  | acquire provider input uri => exact acquireFrom_change B provider input uri p s
  | mark id => exact mark_change id p
  | release id => exact release_change B id p s
  | evict id => exact evict_change B id p s
  | register schemes provider => exact registerProvider_change schemes provider p
  | navigate id entry => exact .same p
  | elsewhere change => exact .same p

/-! ## How many records there are -/

section

variable {B : Backend σ ρ}

/-- Only an acquisition makes records. -/
lemma length_records_step {turn : Turn σ} (st : Pool ρ × σ)
    (hturn : ∀ other input uri, turn ≠ .acquire other input uri) :
    (Pool.step B turn st).1.records.length = st.1.records.length := by
  obtain ⟨p, s⟩ := st
  cases turn with
  | acquire other input uri => exact absurd rfl (hturn other input uri)
  | mark id =>
    change (p.mark id).2.records.length = p.records.length
    rcases p.mark_eq_or id with hsame | ⟨handle, -, -, hq⟩
    · rw [hsame]
    · rw [hq]
      rfl
  | release id =>
    have hreleased := released_release B id p s
    change (p.release B id s).1.records.length = p.records.length
    generalize p.release B id s = out at hreleased ⊢
    cases hreleased with
    | unmarked _ => rfl
    | dropped _ _ _ => rfl
    | lowered _ _ _ _ _ => exact List.length_modify ..
    | retired _ _ _ _ _ => exact (List.length_modify ..).trans (List.length_modify ..)
  | evict id =>
    have hevicted := evicted_evict B id p s
    change (p.evict B id s).2.1.records.length = p.records.length
    generalize p.evict B id s = out at hevicted ⊢
    cases hevicted with
    | absent _ => rfl
    | retired _ _ => exact List.length_modify ..
  | register schemes other =>
    obtain ⟨registry, hq⟩ := exists_registry_eq schemes other p
    change ((p.registerProvider schemes other).toOption.getD p).records.length = p.records.length
    rw [hq]
  | navigate id entry => rfl
  | elsewhere change => rfl

/-! ## Where records come from -/

/-- A record that an acquisition makes is for the filesystem that was given, under its root address,
and with the host as it is behind the acquisition. -/
lemma exists_given_of_acquireFrom {provider : ProviderId} {input : Text} {uri : Url} {p : Pool ρ}
    {s : σ} {id : RecordId} {record : MountRecord}
    (hr : (p.acquireFrom B provider input uri s).2.1.record? id = some record)
    (hnone : p.record? id = none) :
    ∃ fs key, Given B provider input uri s fs key ∧
      record = MountRecord.fresh (B.host (p.acquireFrom B provider input uri s).2.2) key fs := by
  have hstays : p.record? id ≠ some record := by
    rw [hnone]
    exact Option.some_ne_none record ∘ Eq.symm
  have hattempted := attempted_acquireFrom B provider input uri p s
  generalize p.acquireFrom B provider input uri s = out at hattempted hr ⊢
  cases hattempted with
  | unopened _ => exact absurd hr hstays
  | unshared _ _ _ => exact absurd hr hstays
  | shared _ _ _ =>
    rw [record?_share, hnone] at hr
    split at hr <;> cases hr
  | shut _ _ _ => exact absurd hr hstays
  | unmounted _ _ _ _ => exact absurd hr hstays
  | added hrequest _ _ _ =>
    rw [record?_addRecord] at hr
    split at hr
    · exact ⟨_, _, ⟨_, _, hrequest, rfl⟩, (Option.some.inj hr).symm⟩
    · exact absurd hr hstays

/-- A record that a turn makes is made by an acquisition. -/
lemma exists_acquire_of_step {turn : Turn σ} {st : Pool ρ × σ} {id : RecordId}
    {record : MountRecord} (hr : (step B turn st).1.record? id = some record)
    (hnone : st.1.record? id = none) :
    ∃ provider input uri fs key, turn = .acquire provider input uri ∧
      Given B provider input uri st.2 fs key ∧
      record = MountRecord.fresh (B.host (step B turn st).2) key fs := by
  by_cases hturn : ∀ provider input uri, turn ≠ .acquire provider input uri
  · have hlt := (record?_isSome_iff _ id).mp (Option.isSome_of_eq_some hr)
    rw [length_records_step (B := B) st hturn, ← record?_isSome_iff, hnone] at hlt
    cases hlt
  · push Not at hturn
    obtain ⟨provider, input, uri, rfl⟩ := hturn
    obtain ⟨fs, key, hgiven, hfresh⟩ := exists_given_of_acquireFrom hr hnone
    exact ⟨provider, input, uri, fs, key, rfl, hgiven, hfresh⟩

end

end Pool

end ContentMounts
