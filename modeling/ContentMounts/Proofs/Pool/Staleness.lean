import Mathlib.Data.List.Induction
import ContentMounts.Proofs.Pool.Accounting
import ContentMounts.Proofs.Provider.Archives

/-!
# Staleness

A record is defunct exactly if it was pooled once and is not any more, and it stays defunct. From
then on its handles are stale, and the resources that were obtained through them fail without asking
the provider.

For the converse the filesystem of a pooled record has to be open. `Serving` is the invariant that
carries it: the pool closes a filesystem only if no record for it is left, because a record is
pooled under the root address of its filesystem, so that a filesystem has at most one pooled record.
If nobody else closes the filesystem either, and it is an archive, its resources answer.
-/

namespace ContentMounts

namespace Pool

variable {σ ρ : Type}

/-! ## When a record is defunct -/

/-- A record is defunct if it was made and is not pooled. -/
lemma isDefunct_iff {p : Pool ρ} (h : Linked p) (id : RecordId) :
    p.isDefunct id = true ↔ id < p.records.length ∧ p.isPooled id = false := by
  unfold isDefunct
  cases hr : p.record? id with
  | none =>
    have hlen : ¬ id < p.records.length := by
      rw [← record?_isSome_iff, hr]
      exact Bool.false_ne_true
    simp [hlen]
  | some record =>
    have hlen := (record?_isSome_iff p id).mp (Option.isSome_of_eq_some hr)
    have hsettled := h.settled hr
    simp [hlen, hsettled]

/-- A record that is there after a turn was there before, or it is pooled now. -/
lemma record?_or_isPooled_of_change {p q : Pool ρ} (h : Linked p) (hc : Change p q) {id : RecordId}
    (hr : (q.record? id).isSome = true) :
    (p.record? id).isSome = true ∨ q.isPooled id = true := by
  cases hc with
  | same => exact .inl hr
  | registered registry => exact .inl hr
  | @shared key i record root hp =>
    rw [record?_share] at hr
    left
    split at hr <;> simpa using hr
  | added host fs root hfree =>
    rw [record?_addRecord] at hr
    rw [isPooled_addRecord (h.lookup_eq_none hfree)]
    split at hr
    · exact .inr (if_pos ‹_›)
    · exact .inl hr
  | marked hh hs => exact .inl hr
  | dropped hh hs hp => exact .inl hr
  | lowered hh hs hp hr' hpos =>
    rw [record?_giveBack] at hr
    left
    split at hr <;> simpa using hr
  | retired hh hs hp hr' hzero =>
    rw [record?_unpool, record?_giveBack] at hr
    left
    split at hr <;> simpa using hr
  | evicted hp hr' =>
    rw [record?_unpool] at hr
    left
    split at hr <;> simpa using hr

/-- Every record was pooled at some time. -/
lemma exists_isPooled_of_record? (B : Backend σ ρ) (config : PoolConfig) (registry : Registry)
    (s₀ : σ) (turns : List (Turn σ)) {id : RecordId}
    (hr : ((run B turns (start config registry, s₀)).1.record? id).isSome = true) :
    ∃ before, before <+: turns ∧
      (run B before (start config registry, s₀)).1.isPooled id = true := by
  induction turns using List.reverseRecOn with
  | nil => cases hr
  | append_singleton turns turn ih =>
    have hbalanced : Balanced (run B turns (start config registry, s₀)).1 :=
      balanced_run B turns (balanced_start config registry)
    have hstep : run B (turns ++ [turn]) (start config registry, s₀) =
        step B turn (run B turns (start config registry, s₀)) := run_append B turns [turn] _
    rw [hstep] at hr
    rcases record?_or_isPooled_of_change hbalanced.toLinked (step_change B turn _) hr with
      hold | hnew
    · obtain ⟨before, hprefix, hp⟩ := ih hold
      exact ⟨before, hprefix.trans (List.prefix_append turns [turn]), hp⟩
    · refine ⟨turns ++ [turn], List.prefix_refl _, ?_⟩
      rw [hstep]
      exact hnew

/-- Nothing of a record changes but its count, and whether it is defunct. -/
lemma exists_recount_of_change {p q : Pool ρ} (hc : Change p q) {id : RecordId}
    {record : MountRecord} (hr : p.record? id = some record) :
    ∃ references defunct, q.record? id = some { record with references, defunct } := by
  cases hc with
  | same => exact ⟨_, _, hr⟩
  | registered registry => exact ⟨_, _, hr⟩
  | shared root hp =>
    rw [record?_share, hr]
    split
    · exact ⟨_, _, rfl⟩
    · exact ⟨_, _, rfl⟩
  | added host fs root hfree =>
    have hlt := (record?_isSome_iff p id).mp (Option.isSome_of_eq_some hr)
    rw [record?_addRecord, if_neg (Nat.ne_of_lt hlt)]
    exact ⟨_, _, hr⟩
  | marked hh hs => exact ⟨_, _, hr⟩
  | dropped hh hs hp => exact ⟨_, _, hr⟩
  | lowered hh hs hp hr' hpos =>
    rw [record?_giveBack, hr]
    split
    · exact ⟨_, _, rfl⟩
    · exact ⟨_, _, rfl⟩
  | retired hh hs hp hr' hzero =>
    rw [record?_unpool, record?_giveBack, hr]
    split
    · exact ⟨_, _, rfl⟩
    · exact ⟨_, _, rfl⟩
  | evicted hp hr' =>
    rw [record?_unpool, hr]
    split
    · exact ⟨_, _, rfl⟩
    · exact ⟨_, _, rfl⟩

/-- A record keeps its number and its filesystem. -/
lemma exists_record?_of_change {p q : Pool ρ} (hc : Change p q) {id : RecordId}
    {record : MountRecord} (hr : p.record? id = some record) :
    ∃ new, q.record? id = some new ∧ new.fs = record.fs := by
  obtain ⟨references, defunct, hq⟩ := exists_recount_of_change hc hr
  exact ⟨_, hq, rfl⟩

lemma exists_record?_of_run (B : Backend σ ρ) (turns : List (Turn σ)) {st : Pool ρ × σ}
    {id : RecordId} {record : MountRecord} (hr : st.1.record? id = some record) :
    ∃ new, (run B turns st).1.record? id = some new ∧ new.fs = record.fs := by
  induction turns generalizing st record with
  | nil => exact ⟨record, hr, rfl⟩
  | cons turn turns ih =>
    obtain ⟨mid, hmid, hfs⟩ := exists_record?_of_change (step_change B turn st) hr
    obtain ⟨new, hnew, hfs'⟩ := ih hmid
    exact ⟨new, hnew, hfs'.trans hfs⟩

/-! ## What a record that is defunct leads to -/

section Defunct

variable {p : Pool ρ} {id : RecordId} {record : MountRecord}

lemma keyOf_eq (hr : p.record? id = some record) : p.keyOf id = record.key.text := by
  rw [keyOf, hr]
  rfl

/-- A handle on a defunct record is stale. -/
lemma isStale_of_isDefunct {handle : MountHandle ρ} (h : p.isDefunct handle.record = true) :
    p.isStale handle = true := by
  rw [isStale, h, Bool.or_true]

lemma ensureLive_of_isDefunct {handle : MountHandle ρ} (hr : p.record? handle.record = some record)
    (h : p.isDefunct handle.record = true) :
    p.ensureLive handle = .error (.stale record.key.text) := by
  rw [ensureLive, if_pos (isStale_of_isDefunct h), keyOf_eq hr]

lemma root_of_isDefunct {handle : MountHandle ρ} (hr : p.record? handle.record = some record)
    (h : p.isDefunct handle.record = true) : p.root handle = .error (.stale record.key.text) := by
  rw [root, ensureLive_of_isDefunct hr h]
  rfl

lemma entry_of_isDefunct (B : Backend σ ρ) {handle : MountHandle ρ}
    (hr : p.record? handle.record = some record) (h : p.isDefunct handle.record = true)
    (entry : Text) (s : σ) : p.entry B handle entry s = (.error (.stale record.key.text), s) := by
  rw [Pool.entry, ensureLive_of_isDefunct hr h]

/-- A resource of a defunct record fails whatever it is asked, and the provider is not. -/
lemma ask_of_isDefunct {α : Type} {r : PooledResource ρ} (hr : p.record? r.record = some record)
    (h : p.isDefunct r.record = true) (question : ρ → σ → Except ResourceError α × σ) (s : σ) :
    p.ask r question s = (.error (.staleMount record.key.text), s) := by
  rw [ask, if_pos h, keyOf_eq hr]

/-- A question to a resource of a pooled record is passed on. -/
lemma ask_of_isPooled {α : Type} {r : PooledResource ρ} (hl : Linked p)
    (hp : p.isPooled r.record = true) (question : ρ → σ → Except ResourceError α × σ) (s : σ) :
    p.ask r question s = question r.inner s := by
  rw [ask, if_neg]
  intro hdefunct
  rw [((isDefunct_iff hl _).mp hdefunct).2] at hp
  cases hp

end Defunct

/-! ## Pools that hold nothing new -/

/-- The pooled records and the handles of a pool come from another pool. -/
structure Within (q p : Pool ρ) : Prop where
  record : ∀ {id : RecordId} {record : MountRecord}, q.record? id = some record →
    q.isPooled id = true → ∃ old, p.record? id = some old ∧ p.isPooled id = true ∧
      old.fs = record.fs ∧ old.key = record.key
  handle : ∀ handle ∈ q.handles, ∃ old ∈ p.handles,
    old.record = handle.record ∧ old.root = handle.root

namespace Within

variable {p : Pool ρ}

lemma refl (p : Pool ρ) : Within p p where
  record hr hp := ⟨_, hr, hp, rfl, rfl⟩
  handle handle hmem := ⟨handle, hmem, rfl, rfl⟩

lemma trans {q r : Pool ρ} (h : Within r q) (h' : Within q p) : Within r p where
  record := by
    intro id record hr hp
    obtain ⟨mid, hmid, hpmid, hfs, hkey⟩ := h.record hr hp
    obtain ⟨old, hold, hpold, hfs', hkey'⟩ := h'.record hmid hpmid
    exact ⟨old, hold, hpold, hfs'.trans hfs, hkey'.trans hkey⟩
  handle := by
    intro handle hmem
    obtain ⟨mid, hmid, hrecord, hroot⟩ := h.handle handle hmem
    obtain ⟨old, hold, hrecord', hroot'⟩ := h'.handle mid hmid
    exact ⟨old, hold, hrecord'.trans hrecord, hroot'.trans hroot⟩

lemma setHandle (p : Pool ρ) (id : HandleId) (state : HandleState) :
    Within (p.setHandle id state) p where
  record hr hp := ⟨_, hr, hp, rfl, rfl⟩
  handle _ hmem := exists_of_mem_setHandle p hmem

lemma modifyRecord (p : Pool ρ) {f : MountRecord → MountRecord} (hkey : ∀ r, (f r).key = r.key)
    (hfs : ∀ r, (f r).fs = r.fs) (id : RecordId) : Within (p.modifyRecord id f) p where
  record := by
    intro j record hr hp
    rw [isPooled_modifyRecord p id j hkey] at hp
    rw [record?_modifyRecord] at hr
    split at hr
    · obtain ⟨old, hold, hf⟩ := Option.map_eq_some_iff.mp hr
      exact ⟨old, hold, hp, by rw [← hf, hfs], by rw [← hf, hkey]⟩
    · exact ⟨record, hr, hp, rfl, rfl⟩
  handle handle hmem := ⟨handle, hmem, rfl, rfl⟩

lemma giveBack (p : Pool ρ) (id : HandleId) (record : RecordId) : Within (p.giveBack id record) p :=
  (modifyRecord _ MountRecord.lower_key (fun _ => rfl) record).trans (setHandle p id .released)

lemma unpool {id : RecordId} {record : MountRecord} (hp : p.isPooled id = true)
    (hr : p.record? id = some record) : Within (p.unpool id record.key) p where
  record := by
    intro j other ho hj
    rw [isPooled_unpool hp hr, Bool.and_eq_true, bne_iff_ne] at hj
    rw [record?_unpool, if_neg (Ne.symm hj.2)] at ho
    exact ⟨other, ho, hj.1, rfl, rfl⟩
  handle handle hmem := ⟨handle, hmem, rfl, rfl⟩

end Within

/-! ## Filesystems of pooled records are open -/

section Serving

variable {B : Backend σ ρ} {Q : Questions σ ρ} {V : Archives B Q} {f : FileSystemId}

/-- A record pooled for a filesystem says what that is: it is open, and the record's key is its root
address. If it is an archive, the handles on the record lead to entries of it. -/
structure Serving (V : Archives B Q) (f : FileSystemId) (p : Pool ρ) (s : σ) : Prop where
  isOpen : ∀ {id : RecordId} {record : MountRecord}, p.record? id = some record →
    p.isPooled id = true → record.fs = f → B.isOpen f s = true ∧ B.rootUri f s = record.key
  rooted : ∀ {handle : MountHandle ρ} {record : MountRecord}, handle ∈ p.handles →
    p.record? handle.record = some record → p.isPooled handle.record = true → record.fs = f →
    (V.archive? f s).isSome = true → ∃ e, V.entryOf? handle.root = some (f, e)

/-- A turn passes a filesystem if the invariant holds behind it, and the filesystem of a record that
is pooled before and behind it is kept. -/
structure Passes (V : Archives B Q) (f : FileSystemId) (p : Pool ρ) (s : σ) (q : Pool ρ)
    (s' : σ) : Prop where
  serving : Serving V f q s'
  keeps : ∀ {id : RecordId} {record : MountRecord}, p.record? id = some record →
    p.isPooled id = true → record.fs = f → q.isPooled id = true → V.Keeps f s s'

/-- Keys tell pooled records apart. -/
lemma eq_of_isPooled {p : Pool ρ} {i j : RecordId} {a b : MountRecord}
    (ha : p.record? i = some a) (hi : p.isPooled i = true) (hb : p.record? j = some b)
    (hj : p.isPooled j = true) (hkey : a.key.text = b.key.text) : i = j := by
  obtain ⟨a', ha', hla⟩ := (isPooled_iff p i).mp hi
  obtain ⟨b', hb', hlb⟩ := (isPooled_iff p j).mp hj
  obtain rfl : a = a' := Option.some.inj (ha.symm.trans ha')
  obtain rfl : b = b' := Option.some.inj (hb.symm.trans hb')
  rw [hkey, hlb] at hla
  exact (Option.some.inj hla).symm

/-- A filesystem has at most one pooled record. -/
lemma Serving.eq_of_fs {p : Pool ρ} {s : σ} (h : Serving V f p s) {i j : RecordId}
    {a b : MountRecord} (ha : p.record? i = some a) (hi : p.isPooled i = true) (hfa : a.fs = f)
    (hb : p.record? j = some b) (hj : p.isPooled j = true) (hfb : b.fs = f) : i = j :=
  eq_of_isPooled ha hi hb hj
    (congrArg Url.text ((h.isOpen ha hi hfa).2.symm.trans (h.isOpen hb hj hfb).2))

/-- What holds nothing new passes, if the filesystem is kept for the record that stays. -/
lemma Serving.passes {p q : Pool ρ} {s s' : σ} (h : Serving V f p s) (hq : Within q p)
    (hkeeps : ∀ {id : RecordId} {record : MountRecord}, q.record? id = some record →
      q.isPooled id = true → record.fs = f → V.Keeps f s s') : Passes V f p s q s' where
  serving := {
    isOpen := by
      intro id record hr hp hf
      obtain ⟨old, hold, hpold, hfs, hkey⟩ := hq.record hr hp
      obtain ⟨hopen, hroot⟩ := h.isOpen hold hpold (hfs.trans hf)
      obtain ⟨hopen', hroot', -⟩ := hkeeps hr hp hf hopen
      exact ⟨hopen', by rw [hroot', hroot, hkey]⟩
    rooted := by
      intro handle record hmem hr hp hf hkind
      obtain ⟨old, hold, hpold, hfs, -⟩ := hq.record hr hp
      obtain ⟨hopen, -⟩ := h.isOpen hold hpold (hfs.trans hf)
      obtain ⟨-, -, hkind'⟩ := hkeeps hr hp hf hopen
      obtain ⟨oldHandle, hmem', hrecord, hroot⟩ := hq.handle handle hmem
      rw [← hroot]
      rw [← hrecord] at hold hpold
      exact h.rooted hmem' hold hpold (hfs.trans hf) (hkind'.symm.trans hkind) }
  keeps := by
    intro id record hr hp hf hpq
    obtain ⟨new, hnew⟩ := exists_record_of_isPooled hpq
    obtain ⟨old, hold, -, hfs, -⟩ := hq.record hnew hpq
    obtain rfl : old = record := Option.some.inj (hold.symm.trans hr)
    exact hkeeps hnew hpq (hfs.symm.trans hf)

/-- A record that is retired takes its filesystem with it and no other. -/
lemma Serving.passes_unpool {p : Pool ρ} {s : σ} (h : Serving V f p s) (hV : V.Spared f)
    {id : RecordId} {record : MountRecord} (hp : p.isPooled id = true)
    (hr : p.record? id = some record) :
    Passes V f p s (p.unpool id record.key)
      (if record.defunct then s else B.close record.fs s) := by
  refine h.passes (Within.unpool hp hr) fun {j other} ho hj hf => ?_
  rw [isPooled_unpool hp hr, Bool.and_eq_true, bne_iff_ne] at hj
  rw [record?_unpool, if_neg (Ne.symm hj.2)] at ho
  have hne : record.fs ≠ f := fun heq => hj.2 (h.eq_of_fs ho hj.1 hf hr hp heq)
  split
  · exact Archives.Keeps.refl s
  · exact hV.close record.fs s hne

/-- Giving a reference back concerns no filesystem. -/
lemma Serving.passes_giveBack {p : Pool ρ} {s : σ} (h : Serving V f p s) (id : HandleId)
    (record : RecordId) : Passes V f p s (p.giveBack id record) s :=
  h.passes (Within.giveBack p id record) fun _ _ _ => Archives.Keeps.refl s

/-- The last reference is given back, and the record is retired. -/
lemma Serving.passes_retire {p : Pool ρ} {s : σ} (h : Serving V f p s) (hV : V.Spared f)
    {handle : MountHandle ρ} {record : MountRecord} (hp : p.isPooled handle.record = true)
    (hr : p.record? handle.record = some record) (id : HandleId) :
    Passes V f p s ((p.giveBack id handle.record).unpool handle.record record.key)
      (if record.defunct then s else B.close record.fs s) := by
  have hp' : (p.giveBack id handle.record).isPooled handle.record = true := by
    rw [isPooled_giveBack, hp]
  have hunpool := (h.passes_giveBack id handle.record).serving.passes_unpool hV hp'
    (record?_giveBack_self hr id)
  refine ⟨hunpool.serving, fun {j other} ho hj hf hq => ?_⟩
  have hj' : (p.giveBack id handle.record).isPooled j = true := by
    rw [isPooled_giveBack, hj]
  obtain ⟨new, hnew⟩ := exists_record_of_isPooled hj'
  obtain ⟨old, hold, -, hfs, -⟩ := (Within.giveBack p id handle.record).record hnew hj'
  obtain rfl : old = other := Option.some.inj (hold.symm.trans ho)
  exact hunpool.keeps hnew hj' (hfs.symm.trans hf) hq

/-- A release passes every filesystem. -/
lemma Serving.passes_release {p : Pool ρ} {s : σ} (h : Serving V f p s) (hV : V.Spared f)
    (id : HandleId) : Passes V f p s (p.release B id s).1 (p.release B id s).2 := by
  have hreleased := released_release B id p s
  generalize p.release B id s = out at hreleased ⊢
  cases hreleased with
  | unmarked _ => exact h.passes (Within.refl p) fun _ _ _ => Archives.Keeps.refl s
  | dropped _ _ _ =>
    exact h.passes (Within.setHandle p id .released) fun _ _ _ => Archives.Keeps.refl s
  | lowered _ _ _ _ _ => exact h.passes_giveBack id _
  | retired _ _ hp hr _ => exact h.passes_retire hV hp hr id

/-- An eviction passes every filesystem. -/
lemma Serving.passes_evict {p : Pool ρ} {s : σ} (h : Serving V f p s) (hV : V.Spared f)
    (id : RecordId) : Passes V f p s (p.evict B id s).2.1 (p.evict B id s).2.2 := by
  have hevicted := evicted_evict B id p s
  generalize p.evict B id s = out at hevicted ⊢
  cases hevicted with
  | absent _ => exact h.passes (Within.refl p) fun _ _ _ => Archives.Keeps.refl s
  | retired hp hr => exact h.passes_unpool hV hp hr

/-- Marking a handle passes every filesystem. -/
lemma Serving.passes_mark {p : Pool ρ} {s : σ} (h : Serving V f p s) (id : HandleId) :
    Passes V f p s (p.mark id).2 s := by
  rcases p.mark_eq_or id with hsame | ⟨handle, -, -, hq⟩
  · rw [hsame]
    exact h.passes (Within.refl p) fun _ _ _ => Archives.Keeps.refl s
  · rw [hq]
    exact h.passes (Within.setHandle p id .marked) fun _ _ _ => Archives.Keeps.refl s

/-! ## Acquisitions -/

/-- A request for a filesystem keeps the others. -/
lemma keeps_request (hV : V.Spared f) (provider : ProviderId) (input : Text) (uri : Url) (s : σ) :
    V.Keeps f s (B.request provider input uri s).2 := by
  have hnew := hV.openNew provider uri s
  unfold Backend.request
  split
  · next h =>
    rw [h] at hnew
    exact hnew
  · next s₁ h =>
    rw [h] at hnew
    have hfind := hV.findOpen provider uri s₁
    split
    · next h' =>
      rw [h'] at hfind
      exact hnew.trans hfind
    · next h' =>
      rw [h'] at hfind
      exact hnew.trans hfind
  · next h =>
    rw [h] at hnew
    exact hnew

/-- A question for a resource keeps every filesystem. -/
lemma keeps_of_resource (hV : V.Spared f) {fs : FileSystemId} {uri : Url} {s s' : σ}
    {answer : Except ResourceError ρ} (h : B.resource fs uri s = (answer, s')) :
    V.Keeps f s s' := by
  have hkeep := hV.resource fs uri s
  rwa [h] at hkeep

/-- The root that a filesystem gives for an address. -/
lemma exists_entry_of_resource {uri : Url} {s s' : σ} {root : ρ}
    (hres : B.resource f uri s = (.ok root, s')) (hkeep : V.Keeps f s s')
    (hopen : B.isOpen f s = true) (hkind : (V.archive? f s').isSome = true) :
    ∃ e, V.entryOf? root = some (f, e) := by
  obtain ⟨-, -, hsame⟩ := hkeep hopen
  obtain ⟨fs, hfs⟩ := Option.isSome_iff_exists.mp (hsame.symm.trans hkind)
  exact V.entryOf?_resource hfs (by rw [hres])

/-- One more handle on a pooled record passes every filesystem. -/
lemma Serving.passes_share {p : Pool ρ} {s s₁ s₂ : σ} (h : Serving V f p s) {key uri : Url}
    {id : RecordId} {record : MountRecord} {root : ρ} (hp : p.pooled? key = some (id, record))
    (hid : p.isPooled id = true)
    (hkeeps : ∀ {j : RecordId} {other : MountRecord}, p.record? j = some other →
      p.isPooled j = true → other.fs = f → V.Keeps f s s₁)
    (hres : B.resource record.fs uri s₁ = (.ok root, s₂)) (hV : V.Spared f) :
    Passes V f p s (p.share id root).2 s₂ := by
  have hkeep := keeps_of_resource hV hres
  have hr := (pooled?_eq_some_iff.mp hp).2
  have hmod : Within (p.modifyRecord id fun r => { r with references := r.references + 1 }) p :=
    Within.modifyRecord p (f := fun r => { r with references := r.references + 1 })
      (fun _ => rfl) (fun _ => rfl) id
  have hbefore : Passes V f p s
      (p.modifyRecord id fun r => { r with references := r.references + 1 }) s₂ := by
    refine h.passes hmod fun {j other} ho hj hf => ?_
    obtain ⟨old, hold, hpold, hfs, -⟩ := hmod.record ho hj
    exact (hkeeps hold hpold (hfs.trans hf)).trans hkeep
  refine ⟨⟨hbefore.serving.isOpen, ?_⟩, hbefore.keeps⟩
  intro handle other hmem ho hj hf hkind
  rcases List.mem_append.mp hmem with hold | hnew
  · exact hbefore.serving.rooted hold ho hj hf hkind
  · rw [List.mem_singleton.mp hnew] at ho ⊢
    rw [record?_share, if_pos rfl, hr] at ho
    obtain rfl : record.fs = f := (congrArg (·.fs) (Option.some.inj ho)).trans hf
    obtain ⟨hopen, -⟩ := (h.isOpen hr hid rfl)
    obtain ⟨hopen', -⟩ := hkeeps hr hid rfl hopen
    exact exists_entry_of_resource hres hkeep hopen' hkind

/-- A record that is made passes every filesystem. -/
lemma Serving.passes_addRecord {p : Pool ρ} {s s₁ s₂ : σ} (h : Serving V f p s) (hl : Linked p)
    {uri : Url} {fs : FileSystemId} {root : ρ} (hfree : p.pooled? (B.rootUri fs s₁) = none)
    (hkeep₁ : V.Keeps f s s₁) (hopen : B.isOpen fs s₁ = true)
    (hres : B.resource fs uri s₁ = (.ok root, s₂)) (hV : V.Spared f) :
    Passes V f p s (p.addRecord (B.host s₂) (B.rootUri fs s₁) fs root).2 s₂ := by
  have hkeep := keeps_of_resource hV hres
  have hpooled := isPooled_addRecord (hl.lookup_eq_none hfree) (B.host s₂) fs root
  refine ⟨⟨?_, ?_⟩, fun _ _ _ _ => hkeep₁.trans hkeep⟩
  · intro id record hr hp hf
    rw [hpooled] at hp
    rw [record?_addRecord] at hr
    by_cases hnew : id = p.records.length
    · rw [if_pos hnew] at hr
      obtain rfl : MountRecord.fresh (B.host s₂) (B.rootUri fs s₁) fs = record :=
        Option.some.inj hr
      obtain rfl : fs = f := hf
      obtain ⟨hopen', hroot, -⟩ := hkeep hopen
      exact ⟨hopen', hroot⟩
    · rw [if_neg hnew] at hr hp
      obtain ⟨hopen', hroot⟩ := h.isOpen hr hp hf
      obtain ⟨hopen'', hroot', -⟩ := hkeep₁.trans hkeep hopen'
      exact ⟨hopen'', hroot'.trans hroot⟩
  · intro handle record hmem hr hp hf hkind
    rw [hpooled] at hp
    rw [record?_addRecord] at hr
    rcases List.mem_append.mp hmem with hold | hnew
    · have hlt := hl.known handle hold
      rw [if_neg (Nat.ne_of_lt hlt)] at hr hp
      obtain ⟨hopen', -⟩ := h.isOpen hr hp hf
      obtain ⟨-, -, hkind'⟩ := hkeep₁.trans hkeep hopen'
      exact h.rooted hold hr hp hf (hkind'.symm.trans hkind)
    · rw [List.mem_singleton.mp hnew] at hr ⊢
      rw [if_pos rfl] at hr
      obtain rfl : fs = f := (congrArg (·.fs) (Option.some.inj hr)).trans hf
      exact exists_entry_of_resource hres hkeep hopen hkind

/-- A pooled record is found under the root address of its filesystem. -/
lemma Serving.pooled?_rootUri {p : Pool ρ} {s s₁ : σ} (h : Serving V f p s)
    (hkeep : V.Keeps f s s₁) {id : RecordId} {record : MountRecord}
    (hr : p.record? id = some record) (hp : p.isPooled id = true) (hf : record.fs = f) :
    p.pooled? (B.rootUri f s₁) = some (id, record) := by
  obtain ⟨hopen, hroot⟩ := h.isOpen hr hp hf
  obtain ⟨-, hroot', -⟩ := hkeep hopen
  obtain ⟨same, hsame, hlook⟩ := (isPooled_iff p id).mp hp
  obtain rfl : record = same := Option.some.inj (hr.symm.trans hsame)
  rw [hroot', hroot]
  exact pooled?_eq_some_iff.mpr ⟨hlook, hr⟩

/-- A filesystem whose root address leads to no record, or to the record of another one, has no
pooled record. -/
lemma Serving.ne_of_pooled? {p : Pool ρ} {s s₁ : σ} (h : Serving V f p s) (hkeep : V.Keeps f s s₁)
    {fs : FileSystemId}
    (hother : ∀ id record, p.pooled? (B.rootUri fs s₁) = some (id, record) → record.fs ≠ fs)
    {id : RecordId} {record : MountRecord} (hr : p.record? id = some record)
    (hp : p.isPooled id = true) (hf : record.fs = f) : fs ≠ f := by
  rintro rfl
  exact hother id record (h.pooled?_rootUri hkeep hr hp hf) hf

/-- What is closed because another filesystem is in use has no pooled record. -/
lemma Serving.keeps_closeSpare {p : Pool ρ} {s s₁ : σ} (h : Serving V f p s) (hV : V.Spared f)
    (hkeep : V.Keeps f s s₁) {fs : FileSystemId} {found : RecordId} {used : MountRecord}
    (hused : p.pooled? (B.rootUri fs s₁) = some (found, used)) (opened : Bool) {id : RecordId}
    {record : MountRecord} (hr : p.record? id = some record) (hp : p.isPooled id = true)
    (hf : record.fs = f) : V.Keeps f s (B.closeSpare opened used.fs fs s₁) := by
  refine Backend.closeSpare_cases (P := V.Keeps f s) hkeep fun _ hne => ?_
  refine hkeep.trans (hV.close fs s₁ (h.ne_of_pooled? hkeep (fun other same hfound => ?_) hr hp hf))
  rw [hused] at hfound
  cases hfound
  exact hne

/-- What is closed because nothing can be mounted of it has no pooled record. -/
lemma Serving.keeps_close_of_free {p : Pool ρ} {s s₁ : σ} (h : Serving V f p s) (hV : V.Spared f)
    (hkeep : V.Keeps f s s₁) {fs : FileSystemId} (hfree : p.pooled? (B.rootUri fs s₁) = none)
    (opened : Bool) (s₂ : σ) {id : RecordId} {record : MountRecord}
    (hr : p.record? id = some record) (hp : p.isPooled id = true) (hf : record.fs = f) :
    V.Keeps f s₂ (if opened then B.close fs s₂ else s₂) := by
  split
  · refine hV.close fs s₂ (h.ne_of_pooled? hkeep (fun other same hfound => ?_) hr hp hf)
    rw [hfree] at hfound
    cases hfound
  · exact Archives.Keeps.refl s₂

/-- An acquisition passes every filesystem. -/
lemma Serving.passes_acquireFrom {p : Pool ρ} {s : σ} (h : Serving V f p s) (hl : Linked p)
    (hV : V.Spared f) (provider : ProviderId) (input : Text) (uri : Url) :
    Passes V f p s (p.acquireFrom B provider input uri s).2.1
      (p.acquireFrom B provider input uri s).2.2 := by
  have hreq := keeps_request hV provider input uri s
  have hattempted := attempted_acquireFrom B provider input uri p s
  generalize p.acquireFrom B provider input uri s = out at hattempted ⊢
  cases hattempted with
  | unopened hrequest =>
    rw [hrequest] at hreq
    exact h.passes (Within.refl p) fun _ _ _ => hreq
  | unshared hrequest hused hanswer =>
    rw [hrequest] at hreq
    exact h.passes (Within.refl p) fun hr hp hf =>
      (h.keeps_closeSpare hV hreq hused _ hr hp hf).trans (keeps_of_resource hV hanswer)
  | shared hrequest hused hanswer =>
    rw [hrequest] at hreq
    exact h.passes_share hused (hl.isPooled_of_pooled? hused)
      (h.keeps_closeSpare hV hreq hused _) hanswer hV
  | shut hrequest _ _ =>
    rw [hrequest] at hreq
    exact h.passes (Within.refl p) fun _ _ _ => hreq
  | unmounted hrequest hfree _ hanswer =>
    rw [hrequest] at hreq
    exact h.passes (Within.refl p) fun hr hp hf =>
      (hreq.trans (keeps_of_resource hV hanswer)).trans
        (h.keeps_close_of_free hV hreq hfree _ _ hr hp hf)
  | added hrequest hfree hopen hanswer =>
    rw [hrequest] at hreq
    exact h.passes_addRecord hl hfree hreq hopen hanswer hV

/-! ## Navigation -/

/-- A resource that a handle leads to. -/
def Obtained (B : Backend σ ρ) (st : Pool ρ × σ) (handle : MountHandle ρ)
    (r : PooledResource ρ) : Prop :=
  st.1.root handle = .ok r ∨ ∃ entry, (st.1.entry B handle entry st.2).1 = .ok r

/-- A resource that a handle leads to belongs to the handle's record. It is the handle's root, or it
was given by the record's filesystem. -/
lemma Obtained.cases {st : Pool ρ × σ} {handle : MountHandle ρ} {r : PooledResource ρ}
    (h : Obtained B st handle r) : r.record = handle.record ∧ (r.inner = handle.root ∨
      ∃ record uri, st.1.record? handle.record = some record ∧
        (B.resource record.fs uri st.2).1 = .ok r.inner) := by
  rcases h with hroot | ⟨entry, hentry⟩
  · unfold Pool.root at hroot
    cases hlive : st.1.ensureLive handle with
    | error e =>
      rw [hlive] at hroot
      cases hroot
    | ok _ =>
      rw [hlive] at hroot
      cases hroot
      exact ⟨rfl, .inl rfl⟩
  · unfold Pool.entry at hentry
    split at hentry
    · cases hentry
    · cases hentry
    · cases hentry
    · next uri record _ _ hrecord =>
      cases hres : (B.resource record.fs uri st.2).1 with
      | error e =>
        split at hentry
        · next h =>
          rw [h] at hres
          cases hres
        · cases hentry
      | ok inner =>
        split at hentry
        · next h =>
          rw [h] at hres
          cases hres
          cases hentry
          exact ⟨rfl, .inr ⟨record, uri, hrecord, by rw [h]⟩⟩
        · cases hentry

/-! ## Runs -/

/-- Along a run, nobody but the pool and its providers concerns a filesystem. -/
def Undisturbed (V : Archives B Q) (f : FileSystemId) : List (Turn σ) → Pool ρ × σ → Prop
  | [], _ => True
  | turn :: turns, st =>
    (∀ change, turn = .elsewhere change → V.Keeps f st.2 (change st.2)) ∧
      Undisturbed V f turns (step B turn st)

/-- A turn passes every filesystem that nobody else concerns. -/
theorem Serving.passes_step {st : Pool ρ × σ} (h : Serving V f st.1 st.2) (hl : Linked st.1)
    (hV : V.Spared f) (turn : Turn σ)
    (hturn : ∀ change, turn = .elsewhere change → V.Keeps f st.2 (change st.2)) :
    Passes V f st.1 st.2 (step B turn st).1 (step B turn st).2 := by
  obtain ⟨p, s⟩ := st
  cases turn with
  | acquire provider input uri => exact h.passes_acquireFrom hl hV provider input uri
  | mark id => exact h.passes_mark id
  | release id => exact h.passes_release hV id
  | evict id => exact h.passes_evict hV id
  | register schemes provider =>
    refine h.passes (q := (p.registerProvider schemes provider).toOption.getD p) ?_
      fun _ _ _ => Archives.Keeps.refl s
    obtain ⟨registry, hq⟩ := exists_registry_eq schemes provider p
    rw [hq]
    exact ⟨(Within.refl p).record, (Within.refl p).handle⟩
  | navigate id entry =>
    rcases step_navigate B id entry p s with hsame | ⟨fs, uri, hasked⟩
    · rw [hsame]
      exact h.passes (Within.refl p) fun _ _ _ => Archives.Keeps.refl s
    · rw [hasked]
      exact h.passes (Within.refl p) fun _ _ _ => hV.resource fs uri s
  | elsewhere change => exact h.passes (Within.refl p) fun _ _ _ => hturn change rfl

lemma undisturbed_append {turns later : List (Turn σ)} {st : Pool ρ × σ} :
    Undisturbed V f (turns ++ later) st ↔
      Undisturbed V f turns st ∧ Undisturbed V f later (run B turns st) := by
  induction turns generalizing st with
  | nil => simp [Undisturbed]
  | cons turn turns ih => simp [Undisturbed, ih, and_assoc]

/-- A run passes every filesystem that nobody else concerns. -/
theorem Serving.run {turns : List (Turn σ)} {st : Pool ρ × σ} (h : Serving V f st.1 st.2)
    (hb : Balanced st.1) (hV : V.Spared f) (hu : Undisturbed V f turns st) :
    Passes V f st.1 st.2 (Pool.run B turns st).1 (Pool.run B turns st).2 := by
  induction turns generalizing st with
  | nil => exact ⟨h, fun _ _ _ _ => Archives.Keeps.refl st.2⟩
  | cons turn turns ih =>
    obtain ⟨hturn, hrest⟩ := hu
    have hchange := step_change B turn st
    have hb' := hb.of_change hchange
    have hstep := h.passes_step hb.toLinked hV turn hturn
    have hrun := ih hstep.serving hb' hrest
    refine ⟨hrun.serving, fun {id record} hr hp hf hend => ?_⟩
    obtain ⟨new, hnew, hfs⟩ := exists_record?_of_change hchange hr
    have hmid := isPooled_of_run B turns hb' hnew hend
    exact (hstep.keeps hr hp hf hmid).trans (hrun.keeps hnew hmid (hfs.trans hf) hend)

/-- A pool without mounts serves every filesystem. -/
lemma serving_start (V : Archives B Q) (f : FileSystemId) (config : PoolConfig)
    (registry : Registry) (s₀ : σ) : Serving V f (start config registry) s₀ where
  isOpen := by
    intro id record hr
    cases hr
  rooted := by
    intro handle record hmem
    cases hmem

/-- While its record is pooled, an archive that nobody else closes answers every question to a
resource that was obtained through one of the record's handles. -/
theorem Serving.served_ask {st : Pool ρ × σ} (h : Serving V f st.1 st.2) (hb : Balanced st.1)
    (hV : V.Spared f) {later : List (Turn σ)} (hu : Undisturbed V f later st)
    {id : RecordId} {record : MountRecord} (hr : (Pool.run B later st).1.record? id = some record)
    (hp : (Pool.run B later st).1.isPooled id = true) (hf : record.fs = f)
    (hkind : (V.archive? f (Pool.run B later st).2).isSome = true) {number : HandleId}
    {handle : MountHandle ρ} (hh : st.1.handle? number = some handle) (hid : handle.record = id)
    {r : PooledResource ρ} (hobtained : Obtained B st handle r) :
    Q.All fun question =>
      Served ((Pool.run B later st).1.ask r question (Pool.run B later st).2).1 := by
  subst hid
  have hmem := List.mem_of_getElem? hh
  have hlt := hb.known handle hmem
  obtain ⟨old, hold⟩ := Option.isSome_iff_exists.mp ((record?_isSome_iff st.1 _).mpr hlt)
  obtain ⟨same, hsame, hfs⟩ := exists_record?_of_run B later hold
  obtain rfl : same = record := Option.some.inj (hsame.symm.trans hr)
  have hpold := isPooled_of_run B later hb hold hp
  have hrun := h.run hb hV hu
  obtain ⟨hopen, -⟩ := h.isOpen hold hpold (hfs.symm.trans hf)
  obtain ⟨hopen', -, hsameKind⟩ := hrun.keeps hold hpold (hfs.symm.trans hf) hp hopen
  obtain ⟨hrecord, hinner⟩ := hobtained.cases
  have hentry : ∃ e, V.entryOf? r.inner = some (f, e) := by
    rcases hinner with hroot | ⟨found, uri, hfound, hres⟩
    · rw [hroot]
      exact h.rooted hmem hold hpold (hfs.symm.trans hf) (hsameKind.symm.trans hkind)
    · obtain rfl : old = found := Option.some.inj (hold.symm.trans hfound)
      obtain ⟨fs, harchive⟩ := Option.isSome_iff_exists.mp (hsameKind.symm.trans hkind)
      rw [hfs.symm.trans hf] at hres
      exact V.entryOf?_resource harchive hres
  obtain ⟨e, he⟩ := hentry
  obtain ⟨fs, harchive⟩ := Option.isSome_iff_exists.mp hkind
  rw [← hrecord] at hp
  refine (V.served harchive he hopen').imp fun question hserved => ?_
  rw [ask_of_isPooled (balanced_run B later hb).toLinked hp]
  exact hserved

end Serving

/-! ## Staleness is exact, permanent and enforced -/

/-- Let a pool that starts empty, over any providers, run to a first state and on to a second one.

At the second state a record is defunct exactly if it was pooled at some time and is not pooled; a
record that is defunct at the first state is defunct at the second. If a record is defunct at the
second state, its handles are stale there and lead to nothing, and a resource obtained through one
of them at the first state fails whatever it is asked, without a question to the provider.

Conversely, let a record be pooled at the second state for an archive that, but for the pool, nobody
closes. Then no question to a resource obtained through one of its handles at the first state fails
because the mount is gone. -/
theorem staleness_exact (B : Backend σ ρ) (config : PoolConfig) (registry : Registry) (s₀ : σ)
    (turns later : List (Turn σ)) :
    let empty := (start config registry, s₀)
    let first := run B turns empty
    let second := run B later first
    (∀ id, second.1.isDefunct id = true ↔
      (∃ before, before <+: turns ++ later ∧ (run B before empty).1.isPooled id = true) ∧
        second.1.isPooled id = false) ∧
    (∀ id, first.1.isDefunct id = true → second.1.isDefunct id = true) ∧
    (∀ id record, second.1.record? id = some record → second.1.isDefunct id = true →
      (∀ number handle, second.1.handle? number = some handle → handle.record = id →
        second.1.isStale handle = true ∧
        second.1.root handle = .error (.stale record.key.text) ∧
        ∀ entry, second.1.entry B handle entry second.2 =
          (.error (.stale record.key.text), second.2)) ∧
      (∀ number handle r, first.1.handle? number = some handle → handle.record = id →
        Obtained B first handle r →
        ∀ (α : Type) (question : ρ → σ → Except ResourceError α × σ) (s : σ),
          second.1.ask r question s = (.error (.staleMount record.key.text), s))) ∧
    (∀ (Q : Questions σ ρ) (V : Archives B Q) (id : RecordId) (record : MountRecord),
      second.1.record? id = some record → second.1.isPooled id = true →
      (V.archive? record.fs second.2).isSome = true →
      V.Spared record.fs → Undisturbed V record.fs (turns ++ later) empty →
      ∀ number handle r, first.1.handle? number = some handle → handle.record = id →
        Obtained B first handle r →
        Q.All fun question => Served (second.1.ask r question second.2).1) := by
  intro empty first second
  have hempty : Balanced empty.1 := balanced_start config registry
  have hfirst : Balanced first.1 := balanced_run B turns hempty
  have hsecond : Balanced second.1 := balanced_run B later hfirst
  have happend : second = run B (turns ++ later) empty := (run_append B turns later empty).symm
  refine ⟨?_, ?_, ?_, ?_⟩
  · intro id
    rw [isDefunct_iff hsecond.toLinked, ← record?_isSome_iff]
    constructor
    · rintro ⟨hmade, hout⟩
      rw [happend] at hmade
      exact ⟨exists_isPooled_of_record? B config registry s₀ (turns ++ later) hmade, hout⟩
    · rintro ⟨⟨before, ⟨rest, hrest⟩, hp⟩, hout⟩
      obtain ⟨record, hr⟩ := exists_record_of_isPooled hp
      obtain ⟨new, hnew, -⟩ := exists_record?_of_run B rest hr
      rw [← run_append, hrest, ← happend] at hnew
      exact ⟨Option.isSome_of_eq_some hnew, hout⟩
  · intro id hdefunct
    obtain ⟨hmade, hout⟩ := (isDefunct_iff hfirst.toLinked id).mp hdefunct
    obtain ⟨record, hr⟩ := Option.isSome_iff_exists.mp ((record?_isSome_iff first.1 id).mpr hmade)
    obtain ⟨hr', hout'⟩ := frozen_run B later hfirst hr hout
    exact (isDefunct_iff hsecond.toLinked id).mpr
      ⟨(record?_isSome_iff second.1 id).mp (Option.isSome_of_eq_some hr'), hout'⟩
  · intro id record hr hdefunct
    refine ⟨fun number handle hh hid => ?_, fun number handle r hh hid hobtained => ?_⟩
    · subst hid
      exact ⟨isStale_of_isDefunct hdefunct, root_of_isDefunct hr hdefunct,
        fun entry => entry_of_isDefunct B hr hdefunct entry second.2⟩
    · intro α question s
      have hrecord := hobtained.cases.1.trans hid
      exact ask_of_isDefunct (hrecord ▸ hr) (hrecord ▸ hdefunct) question s
  · intro Q V id record hr hp hkind hV hu number handle r hh hid hobtained
    obtain ⟨hu₁, hu₂⟩ := undisturbed_append.mp hu
    have hserving := (serving_start V record.fs config registry s₀).run hempty hV hu₁
    exact hserving.serving.served_ask hfirst hV hu₂ hr hp rfl hkind hh hid hobtained

/-! ### A mounted archive -/

/-- The root address of an archive at `/z`. -/
def sampleRoot : Url := ⟨"jar".toList, none, "file:///z!/".toList, none, none⟩

/-- The provider for archives on a host whose only file is an empty archive, at `/z`. -/
def sampleWorld : World where
  host :=
    ⟨.tick 0, [([122], .file 0)], [⟨[0x50, 0x4B, 5, 6] ++ List.replicate 18 0, .tick 0⟩], 1, []⟩
  providers := [.archive (.ofSchemes ["jar".toList] {})]
  fileSystems := []
  forgotten := []

/-- The addresses that the provider serves. -/
def sampleRegistry : Registry := ⟨[("jar".toList, 0)]⟩

/-- A pool that has mounted the archive. -/
def sampleMount : Pool ProvidedResource × World :=
  run World.backend [.acquire 0 sampleRoot.text sampleRoot] (start {} sampleRegistry, sampleWorld)

/-- The pool behind the release of the only handle. -/
def sampleClosed : Pool ProvidedResource × World :=
  run World.backend [.mark 0, .release 0] sampleMount

/-- The root of the mounted archive answers until the only handle on it is closed, and is stale
then. -/
theorem staleness_of_sampleMount :
    ∃ record handle r, sampleMount.1.record? 0 = some record ∧
      sampleMount.1.handle? 0 = some handle ∧ Obtained World.backend sampleMount handle r ∧
      World.questions.All (fun question => Served (sampleMount.1.ask r question sampleMount.2).1) ∧
      ∀ s, sampleClosed.1.ask r World.questions.pathExists s =
        (.error (.staleMount record.key.text), s) := by
  have hmounted : (sampleMount.1.record? 0).isSome = true := by decide +kernel
  have hheld : (sampleMount.1.handle? 0).isSome = true := by decide +kernel
  have hpooled : sampleMount.1.isPooled 0 = true := by decide +kernel
  have hdefunct : sampleClosed.1.isDefunct 0 = true := by decide +kernel
  have hof : (sampleMount.1.handle? 0).all (fun handle => handle.record == 0) = true := by
    decide +kernel
  have hroot : (sampleMount.1.handle? 0).all
      (fun handle => (sampleMount.1.root handle).toOption.isSome) = true := by decide +kernel
  have hkind : (sampleMount.1.record? 0).all
      (fun record => (sampleMount.2.archive? record.fs).isSome) = true := by decide +kernel
  have hlast : sampleClosed.1.record? 0 = (sampleMount.1.record? 0).map
      (fun record => { record with references := 0, defunct := true }) := by decide +kernel
  obtain ⟨record, hrecord⟩ := Option.isSome_iff_exists.mp hmounted
  obtain ⟨handle, hhandle⟩ := Option.isSome_iff_exists.mp hheld
  simp only [hhandle, Option.all_some] at hof hroot
  simp only [hrecord, Option.all_some, Option.map_some] at hkind hlast
  obtain ⟨r, hr⟩ := Option.isSome_iff_exists.mp hroot
  have hobtained : Obtained World.backend sampleMount handle r := .inl (eq_ok_of_toOption hr)
  have hfirst : handle.record = 0 := by simpa using hof
  have hserved := (staleness_exact World.backend {} sampleRegistry sampleWorld
    [.acquire 0 sampleRoot.text sampleRoot] []).2.2.2
  have hstale := (staleness_exact World.backend {} sampleRegistry sampleWorld
    [.acquire 0 sampleRoot.text sampleRoot] [.mark 0, .release 0]).2.2.1
  dsimp only [run_nil] at hserved hstale
  rw [← sampleMount] at hserved hstale
  rw [← sampleClosed] at hstale
  rw [List.append_nil] at hserved
  have hquiet : Undisturbed World.archives record.fs [.acquire 0 sampleRoot.text sampleRoot]
      (start {} sampleRegistry, sampleWorld) := by
    rw [Undisturbed]
    constructor
    · intro change hchange
      cases hchange
    · rw [Undisturbed]
      trivial
  have harchive : ∀ id w, World.archives.archive? id w = World.archive? id w := fun _ _ => rfl
  refine ⟨record, handle, r, hrecord, hhandle, hobtained, ?_, ?_⟩
  · refine hserved World.questions World.archives 0 record hrecord hpooled ?_
      (World.spared record.fs) hquiet 0 handle r hhandle hfirst hobtained
    rw [harchive]
    exact hkind
  · exact (hstale 0 _ hlast hdefunct).2 0 handle r hhandle hfirst hobtained _ _

end Pool

end ContentMounts
