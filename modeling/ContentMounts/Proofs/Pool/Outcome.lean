import ContentMounts.Proofs.Pool.Run

/-!
# What the operations of a pool come to

An operation of a pool looks at records and handles, asks the providers, and ends in one of a few
ways. `Attempted`, `Released` and `Evicted` list these ways for an acquisition, a release and an
eviction, each with all that was found out before: the answers of the providers and the states that
they lead through, the pool behind it and the providers behind it. What is proved of an operation
is proved by cases over its outcomes, and never by opening its definition again.

The lemmas in front of them read records, and whether they are pooled, off a pool that was changed.
-/

namespace ContentMounts

/-- A record with one reference less. -/
def MountRecord.lower (r : MountRecord) : MountRecord := { r with references := r.references - 1 }

@[simp] lemma MountRecord.lower_key (r : MountRecord) : r.lower.key = r.key := rfl

variable {σ ρ : Type}

/-- The providers once a filesystem is closed that was opened although another one is in use. -/
def Backend.closeSpare (B : Backend σ ρ) (opened : Bool) (used fs : FileSystemId) (s : σ) : σ :=
  if opened && used != fs then B.close fs s else s

lemma Backend.ite_close_eq (B : Backend σ ρ) (opened : Bool) (used fs : FileSystemId) (s : σ) :
    (if opened && used != fs then B.close fs s else s) = B.closeSpare opened used fs s := rfl

@[simp] lemma Backend.closeSpare_false (B : Backend σ ρ) (used fs : FileSystemId) (s : σ) :
    B.closeSpare false used fs s = s := rfl

@[simp] lemma Backend.closeSpare_self (B : Backend σ ρ) (opened : Bool) (fs : FileSystemId)
    (s : σ) : B.closeSpare opened fs fs s = s := by
  simp [closeSpare]

lemma Backend.closeSpare_of_ne (B : Backend σ ρ) {used fs : FileSystemId} (h : used ≠ fs) (s : σ) :
    B.closeSpare true used fs s = B.close fs s := by
  simp [closeSpare, h]

/-- Nothing is closed, or a filesystem that was opened and is not the one in use. -/
lemma Backend.closeSpare_cases {B : Backend σ ρ} {opened : Bool} {used fs : FileSystemId} {s : σ}
    {P : σ → Prop} (hkept : P s) (hclosed : opened = true → used ≠ fs → P (B.close fs s)) :
    P (B.closeSpare opened used fs s) := by
  unfold closeSpare
  split
  · next hspare =>
    rw [Bool.and_eq_true, bne_iff_ne] at hspare
    exact hclosed hspare.1 hspare.2
  · exact hkept

namespace Pool

/-- The pool with a handle released and its reference on a record given back. -/
def giveBack (p : Pool ρ) (id : HandleId) (record : RecordId) : Pool ρ :=
  (p.setHandle id .released).modifyRecord record MountRecord.lower

/-! ## Records, pooled records and handles -/

section View

variable (p : Pool ρ) (id j : RecordId)

@[simp] lemma record?_modifyRecord (f : MountRecord → MountRecord) :
    (p.modifyRecord id f).record? j = if id = j then (p.record? j).map f else p.record? j := by
  simp only [record?, modifyRecord, List.getElem?_modify]
  split <;> simp

@[simp] lemma record?_setHandle (h : HandleId) (state : HandleState) :
    (p.setHandle h state).record? j = p.record? j := rfl

/-- The state of a handle does not change what it is a handle on. -/
lemma exists_of_mem_setHandle {h : HandleId} {state : HandleState} {handle : MountHandle ρ}
    (hmem : handle ∈ (p.setHandle h state).handles) :
    ∃ old ∈ p.handles, old.record = handle.record ∧ old.root = handle.root := by
  obtain ⟨i, hi⟩ := List.mem_iff_getElem?.mp hmem
  rw [setHandle, List.getElem?_modify] at hi
  obtain ⟨old, hold, hset⟩ := Option.map_eq_some_iff.mp hi
  refine ⟨old, List.mem_of_getElem? hold, ?_⟩
  rw [← hset]
  split
  · exact ⟨rfl, rfl⟩
  · exact ⟨rfl, rfl⟩

@[simp] lemma record?_unpool (key : Url) :
    (p.unpool id key).record? j =
      if id = j then (p.record? j).map fun r => { r with defunct := true } else p.record? j := by
  rw [unpool, record?_modifyRecord]
  rfl

@[simp] lemma record?_share (root : ρ) :
    (p.share id root).2.record? j =
      if id = j then (p.record? j).map fun r => { r with references := r.references + 1 }
      else p.record? j :=
  record?_modifyRecord p id j _

/-- A record that is made gets the first free number. -/
lemma record?_addRecord (host : Host) (key : Url) (fs : FileSystemId) (root : ρ) :
    (p.addRecord host key fs root).2.record? j =
      if j = p.records.length then some (MountRecord.fresh host key fs) else p.record? j := by
  simp only [record?, addRecord, addHandle]
  by_cases h : j = p.records.length
  · simp [h]
  · rw [if_neg h]
    rcases Nat.lt_or_gt_of_ne h with hlt | hgt
    · exact List.getElem?_append_left hlt
    · rw [List.getElem?_eq_none (by simpa using Nat.succ_le_of_lt hgt),
        List.getElem?_eq_none (Nat.le_of_lt hgt)]

/-- The numbers of records are those below the number of the next one. -/
lemma record?_isSome_iff : (p.record? id).isSome = true ↔ id < p.records.length := by
  simp [record?]

/-- A record is pooled if its key leads to its number. -/
lemma isPooled_iff : p.isPooled id = true ↔
    ∃ record, p.record? id = some record ∧ p.mounts.lookup record.key.text = some id := by
  unfold isPooled
  cases p.record? id <;> simp

/-- A change of a record that keeps its key does not change what is pooled. -/
lemma isPooled_modifyRecord {f : MountRecord → MountRecord} (hf : ∀ r, (f r).key = r.key) :
    (p.modifyRecord id f).isPooled j = p.isPooled j := by
  rw [Bool.eq_iff_iff, isPooled_iff, isPooled_iff, record?_modifyRecord]
  split
  · cases p.record? j <;> simp [hf, modifyRecord]
  · rfl

@[simp] lemma isPooled_setHandle (h : HandleId) (state : HandleState) :
    (p.setHandle h state).isPooled j = p.isPooled j := rfl

@[simp] lemma record?_giveBack (h : HandleId) :
    (p.giveBack h id).record? j =
      if id = j then (p.record? j).map MountRecord.lower else p.record? j :=
  record?_modifyRecord (p.setHandle h .released) id j MountRecord.lower

@[simp] lemma isPooled_giveBack (h : HandleId) :
    (p.giveBack h id).isPooled j = p.isPooled j :=
  isPooled_modifyRecord (p.setHandle h .released) id j MountRecord.lower_key

@[simp] lemma isPooled_share (root : ρ) : (p.share id root).2.isPooled j = p.isPooled j :=
  isPooled_modifyRecord p id j fun _ => rfl

end View

/-! ## Acquisitions -/

/-- A pooled key leads to a record. -/
lemma pooled?_eq_some_iff {p : Pool ρ} {key : Url} {id : RecordId} {record : MountRecord} :
    p.pooled? key = some (id, record) ↔
      p.mounts.lookup key.text = some id ∧ p.record? id = some record := by
  unfold pooled?
  cases p.mounts.lookup key.text with
  | none => simp
  | some i =>
    cases hr : p.record? i with
    | none =>
      constructor
      · intro h
        simp [hr] at h
      · rintro ⟨hi, h⟩
        cases hi
        simp [hr] at h
    | some r =>
      constructor
      · intro h
        simp only [Option.bind_eq_bind, Option.bind_some, hr, Option.some.injEq,
          Prod.mk.injEq] at h
        exact ⟨congrArg some h.1, by rw [← h.1, hr, h.2]⟩
      · rintro ⟨hi, h⟩
        cases hi
        rw [hr] at h
        cases h
        simp [hr]

/-- What an acquisition can come to, and the states of the providers on the way there. -/
inductive Attempted (B : Backend σ ρ) (provider : ProviderId) (input : Text) (uri : Url)
    (p : Pool ρ) (s : σ) : Except MountError HandleId × Pool ρ × σ → Prop
  /-- There is no filesystem for the address. -/
  | unopened {e : MountError} {s₁ : σ} :
      B.request provider input uri s = (.error e, s₁) →
      Attempted B provider input uri p s (.error e, p, s₁)
  /-- The key is in use, by a filesystem without a resource for the address. -/
  | unshared {fs : FileSystemId} {opened : Bool} {id : RecordId} {record : MountRecord}
      {e : ResourceError} {s₁ s₂ : σ} :
      B.request provider input uri s = (.ok (fs, opened), s₁) →
      p.pooled? (B.rootUri fs s₁) = some (id, record) →
      B.resource record.fs uri (B.closeSpare opened record.fs fs s₁) = (.error e, s₂) →
      Attempted B provider input uri p s (.error (.ofResource e), p, s₂)
  /-- The key is in use, and its record gets one more handle. -/
  | shared {fs : FileSystemId} {opened : Bool} {id : RecordId} {record : MountRecord} {root : ρ}
      {s₁ s₂ : σ} :
      B.request provider input uri s = (.ok (fs, opened), s₁) →
      p.pooled? (B.rootUri fs s₁) = some (id, record) →
      B.resource record.fs uri (B.closeSpare opened record.fs fs s₁) = (.ok root, s₂) →
      Attempted B provider input uri p s (.ok (p.share id root).1, (p.share id root).2, s₂)
  /-- The key is free, but the filesystem has been closed in the meantime. -/
  | shut {fs : FileSystemId} {opened : Bool} {s₁ : σ} :
      B.request provider input uri s = (.ok (fs, opened), s₁) →
      p.pooled? (B.rootUri fs s₁) = none → B.isOpen fs s₁ = false →
      Attempted B provider input uri p s (.error (.unopened input .notFound), p, s₁)
  /-- The key is free, but the filesystem has no resource for the address. -/
  | unmounted {fs : FileSystemId} {opened : Bool} {e : ResourceError} {s₁ s₂ : σ} :
      B.request provider input uri s = (.ok (fs, opened), s₁) →
      p.pooled? (B.rootUri fs s₁) = none → B.isOpen fs s₁ = true →
      B.resource fs uri s₁ = (.error e, s₂) →
      Attempted B provider input uri p s
        (.error (.ofResource e), p, if opened then B.close fs s₂ else s₂)
  /-- The key is free, and a record is made for the filesystem. -/
  | added {fs : FileSystemId} {opened : Bool} {root : ρ} {s₁ s₂ : σ} :
      B.request provider input uri s = (.ok (fs, opened), s₁) →
      p.pooled? (B.rootUri fs s₁) = none → B.isOpen fs s₁ = true →
      B.resource fs uri s₁ = (.ok root, s₂) →
      Attempted B provider input uri p s
        (.ok (p.addRecord (B.host s₂) (B.rootUri fs s₁) fs root).1,
          (p.addRecord (B.host s₂) (B.rootUri fs s₁) fs root).2, s₂)

/-- Every acquisition comes to one of these. -/
lemma attempted_acquireFrom (B : Backend σ ρ) (provider : ProviderId) (input : Text) (uri : Url)
    (p : Pool ρ) (s : σ) :
    Attempted B provider input uri p s (p.acquireFrom B provider input uri s) := by
  unfold acquireFrom
  rcases hrequest : B.request provider input uri s with ⟨e | ⟨fs, opened⟩, s₁⟩
  · exact .unopened hrequest
  · dsimp only
    cases hp : p.pooled? (B.rootUri fs s₁) with
    | some found =>
      obtain ⟨id, record⟩ := found
      dsimp only
      rw [Backend.ite_close_eq]
      rcases hanswer : B.resource record.fs uri (B.closeSpare opened record.fs fs s₁) with
        ⟨e | root, s₂⟩
      · exact .unshared hrequest hp hanswer
      · exact .shared hrequest hp hanswer
    | none =>
      cases hopen : B.isOpen fs s₁ with
      | false => exact .shut hrequest hp hopen
      | true =>
        rw [Bool.not_true, if_neg Bool.false_ne_true]
        rcases hanswer : B.resource fs uri s₁ with ⟨e | root, s₂⟩
        · exact .unmounted hrequest hp hopen hanswer
        · exact .added hrequest hp hopen hanswer

/-- The providers give a filesystem that is to be mounted under a key. -/
def Given (B : Backend σ ρ) (provider : ProviderId) (input : Text) (uri : Url) (s : σ)
    (fs : FileSystemId) (key : Url) : Prop :=
  ∃ opened s', B.request provider input uri s = (.ok (fs, opened), s') ∧ B.rootUri fs s' = key

/-- What an acquisition answers, and the pool behind it. -/
inductive Acquired (given : FileSystemId → Url → Prop) (p : Pool ρ) :
    Except MountError HandleId → Pool ρ → Prop
  /-- Nothing is mounted. -/
  | refused (e : MountError) : Acquired given p (.error e) p
  /-- The key is in use, and its record gets one more handle. -/
  | shared {fs : FileSystemId} {key : Url} {id : RecordId} {record : MountRecord} (root : ρ) :
      given fs key → p.pooled? key = some (id, record) →
      Acquired given p (.ok (p.share id root).1) (p.share id root).2
  /-- The key is free, and a record is made for the filesystem. -/
  | added {fs : FileSystemId} {key : Url} (host : Host) (root : ρ) :
      given fs key → p.pooled? key = none →
      Acquired given p (.ok (p.addRecord host key fs root).1) (p.addRecord host key fs root).2

/-- An acquisition adds a handle on a pooled record, makes a record, or leaves the pool alone. -/
lemma acquired_acquireFrom (B : Backend σ ρ) (provider : ProviderId) (input : Text) (uri : Url)
    (p : Pool ρ) (s : σ) :
    Acquired (Given B provider input uri s) p (p.acquireFrom B provider input uri s).1
      (p.acquireFrom B provider input uri s).2.1 := by
  have hattempted := attempted_acquireFrom B provider input uri p s
  generalize p.acquireFrom B provider input uri s = out at hattempted ⊢
  cases hattempted with
  | unopened _ => exact .refused _
  | unshared _ _ _ => exact .refused _
  | shared hrequest hp _ => exact .shared _ ⟨_, _, hrequest, rfl⟩ hp
  | shut _ _ _ => exact .refused _
  | unmounted _ _ _ _ => exact .refused _
  | added hrequest hfree _ _ => exact .added _ _ ⟨_, _, hrequest, rfl⟩ hfree

/-! ## Releases and evictions -/

/-- Retiring a record takes it out of the pool. -/
lemma retire_eq_unpool (B : Backend σ ρ) {p : Pool ρ} {id : RecordId} {record : MountRecord}
    (h : p.record? id = some record) (s : σ) :
    p.retire B id s =
      (p.unpool id record.key, if record.defunct then s else B.close record.fs s) := by
  unfold retire
  rw [h]

/-- A pooled number has a record. -/
lemma exists_record_of_isPooled {p : Pool ρ} {id : RecordId} (h : p.isPooled id = true) :
    ∃ record, p.record? id = some record := by
  obtain ⟨record, hr, -⟩ := (isPooled_iff p id).mp h
  exact ⟨record, hr⟩

/-- The record whose reference is given back has one reference less. -/
lemma record?_giveBack_self {p : Pool ρ} {id : RecordId} {record : MountRecord}
    (h : p.record? id = some record) (handle : HandleId) :
    (p.giveBack handle id).record? id = some record.lower := by
  rw [record?_giveBack, if_pos rfl, h]
  rfl

/-- The release of a marked handle on a pooled record gives its reference back, and retires the
record if that was the last one. -/
lemma release_eq (B : Backend σ ρ) {p : Pool ρ} {id : HandleId} {handle : MountHandle ρ}
    {record : MountRecord} (hh : p.handle? id = some handle) (hs : handle.state = .marked)
    (hp : p.isPooled handle.record = true) (hr : p.record? handle.record = some record) (s : σ) :
    p.release B id s =
      if record.references - 1 = 0 then
        ((p.giveBack id handle.record).unpool handle.record record.key,
          if record.defunct then s else B.close record.fs s)
      else (p.giveBack id handle.record, s) := by
  have hlow := record?_giveBack_self hr id
  have hlast : ((p.giveBack id handle.record).record? handle.record).any (·.references == 0) =
      decide (record.references - 1 = 0) := by
    rw [hlow]
    rfl
  unfold release
  rw [hh]
  dsimp only
  rw [if_pos hs, dropReference, if_pos (by rw [isPooled_setHandle, hp])]
  change (if ((p.giveBack id handle.record).record? handle.record).any (·.references == 0) = true
    then (p.giveBack id handle.record).retire B handle.record s
    else (p.giveBack id handle.record, s)) = _
  rw [hlast, retire_eq_unpool B hlow, record.lower_key]
  by_cases hzero : record.references - 1 = 0
  · rw [if_pos hzero, if_pos (by simpa using hzero)]
    rfl
  · rw [if_neg hzero, if_neg (by simpa using hzero)]

/-- What a release can come to. -/
inductive Released (B : Backend σ ρ) (id : HandleId) (p : Pool ρ) (s : σ) : Pool ρ × σ → Prop
  /-- There is no marked handle with the number. -/
  | unmarked : (∀ handle, p.handle? id = some handle → handle.state ≠ .marked) →
      Released B id p s (p, s)
  /-- The record of the handle has left the pool. -/
  | dropped {handle : MountHandle ρ} : p.handle? id = some handle → handle.state = .marked →
      p.isPooled handle.record = false → Released B id p s (p.setHandle id .released, s)
  /-- Other handles hold the record. -/
  | lowered {handle : MountHandle ρ} {record : MountRecord} : p.handle? id = some handle →
      handle.state = .marked → p.isPooled handle.record = true →
      p.record? handle.record = some record → record.references - 1 ≠ 0 →
      Released B id p s (p.giveBack id handle.record, s)
  /-- It was the last handle to hold the record. -/
  | retired {handle : MountHandle ρ} {record : MountRecord} : p.handle? id = some handle →
      handle.state = .marked → p.isPooled handle.record = true →
      p.record? handle.record = some record → record.references - 1 = 0 →
      Released B id p s ((p.giveBack id handle.record).unpool handle.record record.key,
        if record.defunct then s else B.close record.fs s)

/-- Every release comes to one of these. -/
lemma released_release (B : Backend σ ρ) (id : HandleId) (p : Pool ρ) (s : σ) :
    Released B id p s (p.release B id s) := by
  cases hh : p.handle? id with
  | none =>
    rw [release, hh]
    exact .unmarked fun handle hsome => by rw [hh] at hsome; cases hsome
  | some handle =>
    by_cases hs : handle.state = .marked
    · by_cases hp : p.isPooled handle.record = true
      · obtain ⟨record, hr⟩ := exists_record_of_isPooled hp
        rw [release_eq B hh hs hp hr]
        by_cases hlast : record.references - 1 = 0
        · rw [if_pos hlast]
          exact .retired hh hs hp hr hlast
        · rw [if_neg hlast]
          exact .lowered hh hs hp hr hlast
      · rw [release, hh]
        dsimp only
        rw [if_pos hs, dropReference, if_neg (by simpa using hp)]
        exact .dropped hh hs (by simpa using hp)
    · rw [release, hh]
      dsimp only
      rw [if_neg hs]
      refine .unmarked fun other hother => ?_
      obtain rfl := Option.some.inj (hh.symm.trans hother)
      exact hs

/-- The eviction of a pooled record retires it. -/
lemma evict_eq (B : Backend σ ρ) {p : Pool ρ} {id : RecordId} {record : MountRecord}
    (hp : p.isPooled id = true) (hr : p.record? id = some record) (s : σ) :
    p.evict B id s =
      (true, p.unpool id record.key, if record.defunct then s else B.close record.fs s) := by
  rw [evict, if_pos hp, retire_eq_unpool B hr]

/-- What an eviction can come to. -/
inductive Evicted (B : Backend σ ρ) (id : RecordId) (p : Pool ρ) (s : σ) :
    Bool × Pool ρ × σ → Prop
  /-- The record has left the pool before. -/
  | absent : p.isPooled id = false → Evicted B id p s (false, p, s)
  /-- The record is retired. -/
  | retired {record : MountRecord} : p.isPooled id = true → p.record? id = some record →
      Evicted B id p s
        (true, p.unpool id record.key, if record.defunct then s else B.close record.fs s)

/-- Every eviction comes to one of these. -/
lemma evicted_evict (B : Backend σ ρ) (id : RecordId) (p : Pool ρ) (s : σ) :
    Evicted B id p s (p.evict B id s) := by
  by_cases hp : p.isPooled id = true
  · obtain ⟨record, hr⟩ := exists_record_of_isPooled hp
    rw [evict_eq B hp hr]
    exact .retired hp hr
  · rw [evict, if_neg hp]
    exact .absent (Bool.eq_false_iff.mpr hp)

/-! ## The other operations -/

/-- Marking changes a live handle, or nothing. -/
lemma mark_eq_or (p : Pool ρ) (id : HandleId) :
    (p.mark id).2 = p ∨ ∃ handle, p.handle? id = some handle ∧ handle.state = .live ∧
      (p.mark id).2 = p.setHandle id .marked := by
  unfold mark
  cases hh : p.handle? id with
  | none => exact .inl rfl
  | some handle =>
    by_cases hs : handle.state = .live
    · rw [if_pos (by simp [hs])]
      exact .inr ⟨handle, rfl, hs, rfl⟩
    · rw [if_neg (by simpa using hs)]
      exact .inl rfl

/-- Registering a provider concerns the registry alone. -/
lemma exists_registry_eq (schemes : List Text) (provider : ProviderId) (p : Pool ρ) :
    ∃ registry, (p.registerProvider schemes provider).toOption.getD p = { p with registry } := by
  unfold registerProvider
  split
  · exact ⟨p.registry, rfl⟩
  · cases p.registry.register schemes provider with
    | error e => exact ⟨p.registry, rfl⟩
    | ok registry => exact ⟨registry, rfl⟩

/-- A handle that is asked for an entry asks its filesystem, if it asks anybody. -/
lemma entry_providers_eq_or (B : Backend σ ρ) (p : Pool ρ) (handle : MountHandle ρ) (entry : Text)
    (s : σ) :
    (p.entry B handle entry s).2 = s ∨
      ∃ fs uri, (p.entry B handle entry s).2 = (B.resource fs uri s).2 := by
  unfold Pool.entry
  split
  · exact .inl rfl
  · exact .inl rfl
  · exact .inl rfl
  · next uri record _ _ _ =>
    refine .inr ⟨record.fs, uri, ?_⟩
    split
    · next hanswer => rw [hanswer]
    · next hanswer => rw [hanswer]

/-- So does a turn that navigates. -/
lemma step_navigate (B : Backend σ ρ) (id : HandleId) (entry : Text) (p : Pool ρ) (s : σ) :
    step B (.navigate id entry) (p, s) = (p, s) ∨
      ∃ fs uri, step B (.navigate id entry) (p, s) = (p, (B.resource fs uri s).2) := by
  have hstep : step B (.navigate id entry) (p, s) =
      (p, (p.handle? id).elim s fun handle => (p.entry B handle entry s).2) := rfl
  rw [hstep]
  cases p.handle? id with
  | none => exact .inl rfl
  | some handle =>
    rcases entry_providers_eq_or B p handle entry s with hsame | ⟨fs, uri, hasked⟩
    · exact .inl (congrArg (Prod.mk p) hsame)
    · exact .inr ⟨fs, uri, congrArg (Prod.mk p) hasked⟩

end Pool

end ContentMounts
