import ContentMounts.Proofs.Pool.Change
import ContentMounts.Provider.World

/-!
# Which provider a scheme has

Providers are registered while a pool is in use. Each comes with a list of schemes in any case, and
it gets all of them or none. `Pool.registerInSteps` is the registration as it goes along: the
schemes are looked through twice and written one by one after that. What is written stays if a later
step fails, but no step fails that stands behind a writing one, so the steps come to the
registration as a whole (`Pool.run_registerInSteps`).

Which registrations are granted can be told from what was asked for alone (`Registration.grantAll`).
`Pool.Granted` says what a pool has of them: every scheme leads to the first granted registration
that names it. One turn keeps this (`Pool.Granted.step`), and so does every run.
-/

namespace ContentMounts

/-- A provider and the schemes that it is to be registered for. -/
structure Registration where
  schemes : List Text
  provider : ProviderId
deriving DecidableEq, Repr

namespace Registration

/-- The schemes in lower case. -/
def keys (g : Registration) : List Text := g.schemes.map Text.lower

/-- Whether a scheme is among those of a registration, regardless of case. -/
def names (g : Registration) (scheme : Text) : Bool := g.schemes.any (Text.sameIgnoringCase · scheme)

/-- Whether a registration can be granted behind others: none of its schemes addresses the host
directly, and none is named by another one. -/
def isFree (config : PoolConfig) (granted : List Registration) (g : Registration) : Bool :=
  g.schemes.all fun s => !config.isDirectScheme s && !granted.any (·.names s)

/-- The granted registrations after one more was asked for. -/
def grant (config : PoolConfig) (granted : List Registration) (g : Registration) :
    List Registration :=
  if g.isFree config granted then granted ++ [g] else granted

/-- The registrations that are granted of those asked for. -/
def grantAll (config : PoolConfig) (asked : List Registration) : List Registration :=
  asked.foldl (grant config) []

/-- The provider that a scheme has by the granted registrations: that of the first which names
it. -/
def providerOf (granted : List Registration) (scheme : Text) : Option ProviderId :=
  (granted.find? (·.names scheme)).map (·.provider)

lemma names_eq_contains (g : Registration) (scheme : Text) :
    g.names scheme = g.keys.contains (Text.lower scheme) := by
  rw [Bool.eq_iff_iff, names, List.any_eq_true, List.contains_iff_mem, keys, List.mem_map]
  simp only [Text.sameIgnoringCase, beq_iff_eq]

/-- What is asked for does not change what was granted before. -/
lemma prefix_grant (config : PoolConfig) (granted : List Registration) (g : Registration) :
    granted <+: grant config granted g := by
  unfold grant
  split
  · exact List.prefix_append granted [g]
  · exact List.prefix_refl granted

lemma prefix_foldl_grant (config : PoolConfig) (asked granted : List Registration) :
    granted <+: asked.foldl (grant config) granted := by
  induction asked generalizing granted with
  | nil => exact List.prefix_refl granted
  | cons g rest ih => exact (prefix_grant config granted g).trans (ih _)

/-- A scheme that has a provider keeps it. -/
lemma providerOf_of_prefix {granted later : List Registration} (h : granted <+: later)
    {scheme : Text} {id : ProviderId} (hid : providerOf granted scheme = some id) :
    providerOf later scheme = some id := by
  obtain ⟨more, rfl⟩ := h
  rw [providerOf] at hid ⊢
  rw [List.find?_append, Option.map_or, hid, Option.some_or]

end Registration

/-- Case does not matter for whether a scheme addresses the host directly. -/
lemma PoolConfig.isDirectScheme_congr (config : PoolConfig) {s t : Text}
    (h : Text.lower s = Text.lower t) : config.isDirectScheme s = config.isDirectScheme t := by
  simp only [isDirectScheme, Text.sameIgnoringCase, h]

lemma Text.lower_lower (t : Text) : lower (lower t) = lower t := by
  rw [lower, lower, List.map_map]
  refine List.map_congr_left fun c _ => ?_
  have hself : ∀ d : Char, ¬(d.val ≥ 'A'.val ∧ d.val ≤ 'Z'.val) → d.toLower = d :=
    fun _ hnot => dif_neg hnot
  refine hself c.toLower fun hupper => ?_
  by_cases hc : c.val ≥ 'A'.val ∧ c.val ≤ 'Z'.val
  · have hval : c.toLower.val = c.val + ('a'.val - 'A'.val) :=
      congrArg Char.val (dif_pos hc)
    rw [hval] at hupper
    grind
  · exact hc (hself c hc ▸ hupper)

/-- The registration that a turn asks for. -/
def Turn.request? {σ : Type} : Turn σ → Option Registration
  | .register schemes provider => some ⟨schemes, provider⟩
  | _ => none

namespace Pool

variable {σ ρ : Type}

/-! ## The steps of a registration -/

/-- What is done to a pool step by step. What is written before a step fails stays written. -/
abbrev Steps (ρ : Type) := ExceptT MountError (StateM (Pool ρ))

/-- Refuses a scheme that the pool has a reason against. -/
def refuse (against : Pool ρ → Text → Bool) (e : Text → MountError) (scheme : Text) :
    Steps ρ Unit := do
  if against (← get) scheme then throw (e scheme)

/-- Writes a provider under a key. -/
def enter (provider : ProviderId) (key : Text) : Steps ρ Unit :=
  modify fun p => { p with registry := ⟨Assoc.put key provider p.registry.providers⟩ }

/-- A registration as it goes along. The schemes are first looked at as they are spelled and then,
as keys, in lower case; at last each key is written. -/
def registerInSteps (g : Registration) : Steps ρ Unit := do
  forM g.schemes (refuse (fun p => p.config.isDirectScheme) (.invalidArgument ∘ .directScheme))
  forM g.keys (refuse (fun p key => (p.registry.providers.lookup key).isSome) .duplicateProvider)
  forM g.keys (enter g.provider)

/-- One part of the steps is done behind the other, unless that fails. -/
lemma run_bind {α β : Type} (x : Steps ρ α) (f : α → Steps ρ β) (p : Pool ρ) :
    (x >>= f).run.run p =
      match x.run.run p with
      | (.ok a, q) => (f a).run.run q
      | (.error e, q) => (.error e, q) := by
  change StateT.run (x.run >>= ExceptT.bindCont f) p = _
  rw [StateT.run_bind]
  rcases x.run.run p with ⟨e | a, q⟩ <;> rfl

lemma run_refuse (against : Pool ρ → Text → Bool) (e : Text → MountError) (scheme : Text)
    (p : Pool ρ) : (refuse against e scheme).run.run p =
      if against p scheme then (.error (e scheme), p) else (.ok (), p) := by
  change (if against p scheme then throw (e scheme) else pure () : Steps ρ Unit).run.run p = _
  cases against p scheme <;> rfl

/-- The schemes are refused for the first one that there is a reason against, and nothing is
changed. -/
lemma run_forM_refuse (against : Pool ρ → Text → Bool) (e : Text → MountError)
    (schemes : List Text) (p : Pool ρ) :
    (forM schemes (refuse against e)).run.run p =
      match schemes.find? (against p) with
      | some scheme => (.error (e scheme), p)
      | none => (.ok (), p) := by
  induction schemes with
  | nil => rfl
  | cons s rest ih =>
    rw [List.forM_cons, run_bind, run_refuse]
    cases hs : against p s with
    | true =>
      rw [List.find?_cons_of_pos hs]
      rfl
    | false =>
      rw [List.find?_cons_of_neg (by simp [hs]), ← ih]
      rfl

/-- All keys are written. -/
lemma run_forM_enter (provider : ProviderId) (keys : List Text) (p : Pool ρ) :
    (forM keys (enter provider)).run.run p =
      (.ok (), { p with
        registry := ⟨keys.foldl (fun known s => Assoc.put s provider known)
          p.registry.providers⟩ }) := by
  induction keys generalizing p with
  | nil => rfl
  | cons key rest ih =>
    rw [List.forM_cons, run_bind, List.foldl_cons]
    exact ih _

/-- The pool with a provider written under keys. -/
def withKeys (p : Pool ρ) (provider : ProviderId) (keys : List Text) : Pool ρ :=
  { p with registry :=
    ⟨keys.foldl (fun known s => Assoc.put s provider known) p.registry.providers⟩ }

/-- Why a registration is refused, if it is. -/
def refusal? (p : Pool ρ) (g : Registration) : Option MountError :=
  match g.schemes.find? p.config.isDirectScheme with
  | some scheme => some (.invalidArgument (.directScheme scheme))
  | none => (g.keys.find? fun key => (p.registry.providers.lookup key).isSome).map .duplicateProvider

lemma registerProvider_eq (p : Pool ρ) (g : Registration) :
    p.registerProvider g.schemes g.provider =
      match p.refusal? g with
      | some e => .error e
      | none => .ok (p.withKeys g.provider g.keys) := by
  unfold registerProvider refusal? Registry.register Registration.keys
  cases g.schemes.find? p.config.isDirectScheme with
  | some scheme => rfl
  | none =>
    dsimp only
    cases (g.schemes.map Text.lower).find? fun key => (p.registry.providers.lookup key).isSome <;> rfl

/-- The steps of a registration come to the registration as a whole: where it fails, nothing has
been written. -/
theorem run_registerInSteps (g : Registration) (p : Pool ρ) :
    (registerInSteps g).run.run p =
      match p.registerProvider g.schemes g.provider with
      | .ok q => (.ok (), q)
      | .error e => (.error e, p) := by
  rw [registerInSteps, run_bind, run_forM_refuse, registerProvider_eq, refusal?]
  cases g.schemes.find? p.config.isDirectScheme with
  | some scheme => rfl
  | none =>
    dsimp only
    rw [run_bind, run_forM_refuse]
    cases g.keys.find? fun key => (p.registry.providers.lookup key).isSome with
    | some taken => rfl
    | none => exact run_forM_enter g.provider g.keys p

/-! ## What a registration writes -/

/-- Writing a provider under keys concerns these keys. -/
lemma lookup_foldl_put (provider : ProviderId) (keys : List Text) (m : List (Text × ProviderId))
    (key : Text) :
    (keys.foldl (fun known s => Assoc.put s provider known) m).lookup key =
      if keys.contains key then some provider else m.lookup key := by
  induction keys generalizing m with
  | nil => rfl
  | cons first rest ih =>
    rw [List.foldl_cons, ih, List.contains_cons]
    by_cases hfirst : key = first
    · rw [hfirst, Assoc.lookup_put_self, beq_self_eq_true, Bool.true_or, ite_self, if_pos rfl]
    · rw [Assoc.lookup_put_ne hfirst, beq_false_of_ne hfirst, Bool.false_or]

/-- What a pool has of the granted registrations. -/
structure Granted (config : PoolConfig) (granted : List Registration) (p : Pool ρ) : Prop where
  config_eq : p.config = config
  /-- A key leads to the first granted registration that has it. -/
  lookup_eq : ∀ key, p.registry.providers.lookup key =
    (granted.find? (·.keys.contains key)).map (·.provider)
  indirect : ∀ g ∈ granted, ∀ scheme ∈ g.schemes, config.isDirectScheme scheme = false

namespace Granted

variable {config : PoolConfig} {granted : List Registration} {p : Pool ρ}

lemma get?_eq (h : Granted config granted p) (scheme : Text) :
    p.registry.get? scheme = Registration.providerOf granted scheme := by
  rw [Registry.get?, h.lookup_eq, Registration.providerOf]
  simp only [Registration.names_eq_contains]

/-- A key is taken if the registration of its scheme is granted already. -/
lemma isSome_lookup (h : Granted config granted p) (scheme : Text) :
    (p.registry.providers.lookup (Text.lower scheme)).isSome = granted.any (·.names scheme) := by
  rw [h.lookup_eq, Option.isSome_map, List.isSome_find?]
  simp only [Registration.names_eq_contains]

/-- A registration that is not free is refused. -/
lemma refusal?_eq_none_iff (h : Granted config granted p) (g : Registration) :
    p.refusal? g = none ↔ g.isFree config granted = true := by
  have hkeys : (g.keys.find? fun key => (p.registry.providers.lookup key).isSome) = none ↔
      ∀ s ∈ g.schemes, granted.any (·.names s) = false := by
    rw [List.find?_eq_none, Registration.keys, List.forall_mem_map]
    simp only [h.isSome_lookup, Bool.not_eq_true]
  unfold refusal?
  rw [Registration.isFree, List.all_eq_true, ← h.config_eq]
  simp only [Bool.and_eq_true, Bool.not_eq_true']
  cases hdirect : g.schemes.find? p.config.isDirectScheme with
  | some scheme =>
    have hscheme := List.find?_some hdirect
    have hmem := List.mem_of_find?_eq_some hdirect
    refine iff_of_false (by simp) fun hfree => ?_
    rw [(hfree scheme hmem).1] at hscheme
    cases hscheme
  | none =>
    rw [List.find?_eq_none] at hdirect
    rw [Option.map_eq_none_iff, hkeys]
    exact ⟨fun hnone s hs => ⟨by simpa using hdirect s hs, hnone s hs⟩, fun hfree s hs =>
      (hfree s hs).2⟩

/-- What is asked for is granted if it is free. -/
lemma grant (h : Granted config granted p) (g : Registration) :
    Granted config (Registration.grant config granted g)
      ((p.registerProvider g.schemes g.provider).toOption.getD p) := by
  rw [registerProvider_eq, Registration.grant]
  cases hrefusal : p.refusal? g with
  | some e =>
    have hfree : g.isFree config granted = false := by
      rw [← Bool.not_eq_true, ← h.refusal?_eq_none_iff, hrefusal]
      exact Option.some_ne_none e
    rw [hfree]
    exact h
  | none =>
    have hfree := (h.refusal?_eq_none_iff g).mp hrefusal
    rw [if_pos hfree]
    rw [Registration.isFree, List.all_eq_true] at hfree
    simp only [Bool.and_eq_true, Bool.not_eq_true'] at hfree
    refine ⟨h.config_eq, fun key => ?_, fun other hother => ?_⟩
    · change List.lookup key (g.keys.foldl _ _) = _
      rw [lookup_foldl_put, List.find?_append, Option.map_or, ← h.lookup_eq, List.find?_singleton]
      by_cases hkey : g.keys.contains key = true
      · obtain ⟨s, hs, rfl⟩ := List.mem_map.mp (List.contains_iff_mem.mp hkey)
        have hnone : p.registry.providers.lookup (Text.lower s) = none := by
          rw [← Option.not_isSome_iff_eq_none, h.isSome_lookup, (hfree s hs).2]
          exact Bool.false_ne_true
        rw [if_pos hkey, if_pos hkey, hnone]
        rfl
      · rw [if_neg hkey, if_neg hkey]
        exact (Option.or_none).symm
    · rcases List.mem_append.mp hother with hold | hnew
      · exact h.indirect other hold
      · obtain rfl := List.mem_singleton.mp hnew
        exact fun scheme hscheme => (hfree scheme hscheme).1

/-- The steps of a free registration give the pool that it is asked to give, and the steps of any
other have written nothing when they fail. -/
lemma attempt (h : Granted config granted p) (g : Registration) :
    (g.isFree config granted = true → (registerInSteps g).run.run p =
      (.ok (), (p.registerProvider g.schemes g.provider).toOption.getD p)) ∧
    (g.isFree config granted = false → ∃ e, (registerInSteps g).run.run p = (.error e, p) ∧
      (p.registerProvider g.schemes g.provider).toOption.getD p = p) := by
  rw [run_registerInSteps, registerProvider_eq]
  refine ⟨fun hfree => ?_, fun hfree => ?_⟩
  · rw [(h.refusal?_eq_none_iff g).mpr hfree]
    rfl
  · cases hwhy : p.refusal? g with
    | none => exact absurd ((h.refusal?_eq_none_iff g).mp hwhy) (by simp [hfree])
    | some e => exact ⟨e, rfl, rfl⟩

/-- Whatever leaves the registry alone keeps what a pool has of it. -/
lemma congr (h : Granted config granted p) {q : Pool ρ} (hconfig : q.config = p.config)
    (hregistry : q.registry = p.registry) : Granted config granted q where
  config_eq := hconfig.trans h.config_eq
  lookup_eq := by
    rw [hregistry]
    exact h.lookup_eq
  indirect := h.indirect

/-- A scheme that addresses the host directly is registered in no case. -/
lemma get?_eq_none (h : Granted config granted p) {scheme : Text}
    (hdirect : config.isDirectScheme scheme = true) : p.registry.get? scheme = none := by
  rw [h.get?_eq, Registration.providerOf, Option.map_eq_none_iff, List.find?_eq_none]
  intro g hg hnames
  obtain ⟨s, hs, hsame⟩ := List.any_eq_true.mp hnames
  rw [← config.isDirectScheme_congr (eq_of_beq hsame),
    h.indirect g hg s hs] at hdirect
  cases hdirect

/-- What is listed as registered is not a direct scheme. -/
lemma isDirectScheme_of_mem_schemes (h : Granted config granted p) {key : Text}
    (hkey : key ∈ p.registry.schemes) : config.isDirectScheme key = false := by
  obtain ⟨pair, hpair, hpairKey⟩ := List.mem_map.mp (List.mem_mergeSort.mp hkey)
  have hfound : p.registry.providers.lookup key ≠ none := by
    intro hnone
    exact absurd hpairKey.symm (by simpa using List.lookup_eq_none_iff.mp hnone pair hpair)
  rw [h.lookup_eq] at hfound
  cases hfirst : granted.find? (·.keys.contains key) with
  | none => exact absurd (congrArg (Option.map (·.provider)) hfirst) hfound
  | some g =>
    have hmem : key ∈ g.keys := by simpa using List.find?_some hfirst
    obtain ⟨s, hs, rfl⟩ := List.mem_map.mp hmem
    rw [config.isDirectScheme_congr (Text.lower_lower s)]
    exact h.indirect g (List.mem_of_find?_eq_some hfirst) s hs

end Granted

/-! ## Runs -/

/-- No other turn concerns the registry. -/
lemma registry_step (B : Backend σ ρ) {turn : Turn σ} (hturn : turn.request? = none)
    (st : Pool ρ × σ) :
    (step B turn st).1.config = st.1.config ∧ (step B turn st).1.registry = st.1.registry := by
  obtain ⟨p, s⟩ := st
  cases turn with
  | acquire provider input uri =>
    have hacquired := acquired_acquireFrom B provider input uri p s
    change (p.acquireFrom B provider input uri s).2.1.config = p.config ∧
      (p.acquireFrom B provider input uri s).2.1.registry = p.registry
    generalize (p.acquireFrom B provider input uri s).1 = answer at hacquired
    generalize (p.acquireFrom B provider input uri s).2.1 = q at hacquired ⊢
    cases hacquired with
    | refused e => exact ⟨rfl, rfl⟩
    | shared root _ _ => exact ⟨rfl, rfl⟩
    | added host root _ _ => exact ⟨rfl, rfl⟩
  | mark id =>
    change (p.mark id).2.config = p.config ∧ (p.mark id).2.registry = p.registry
    rcases p.mark_eq_or id with hsame | ⟨handle, -, -, hq⟩
    · rw [hsame]
      exact ⟨rfl, rfl⟩
    · rw [hq]
      exact ⟨rfl, rfl⟩
  | release id =>
    have hreleased := released_release B id p s
    change (p.release B id s).1.config = p.config ∧ (p.release B id s).1.registry = p.registry
    generalize p.release B id s = out at hreleased ⊢
    cases hreleased <;> exact ⟨rfl, rfl⟩
  | evict id =>
    have hevicted := evicted_evict B id p s
    change (p.evict B id s).2.1.config = p.config ∧ (p.evict B id s).2.1.registry = p.registry
    generalize p.evict B id s = out at hevicted ⊢
    cases hevicted <;> exact ⟨rfl, rfl⟩
  | register schemes provider => cases hturn
  | navigate id entry => exact ⟨rfl, rfl⟩
  | elsewhere change => exact ⟨rfl, rfl⟩

/-- A turn grants what it asks for, if it asks for anything. -/
lemma Granted.step {config : PoolConfig} {granted : List Registration} {st : Pool ρ × σ}
    (h : Granted config granted st.1) (B : Backend σ ρ) (turn : Turn σ) :
    Granted config (turn.request?.toList.foldl (Registration.grant config) granted)
      (step B turn st).1 := by
  cases hturn : turn.request? with
  | none =>
    obtain ⟨hconfig, hregistry⟩ := registry_step B hturn st
    exact h.congr hconfig hregistry
  | some g =>
    cases turn with
    | register schemes provider =>
      obtain rfl := Option.some.inj hturn
      exact h.grant ⟨schemes, provider⟩
    | _ => cases hturn

/-- A run grants what its turns ask for. -/
lemma Granted.run {config : PoolConfig} {granted : List Registration} {st : Pool ρ × σ}
    (h : Granted config granted st.1) (B : Backend σ ρ) (turns : List (Turn σ)) :
    Granted config ((turns.filterMap Turn.request?).foldl (Registration.grant config) granted)
      (run B turns st).1 := by
  induction turns generalizing granted st with
  | nil => exact h
  | cons turn rest ih =>
    have hrest := ih (h.step B turn)
    rw [run_cons, List.filterMap_cons]
    cases hturn : turn.request? with
    | none =>
      rw [hturn] at hrest
      exact hrest
    | some g =>
      rw [hturn] at hrest
      exact hrest

lemma granted_ofConfig (config : PoolConfig) : Granted config [] (ofConfig config : Pool ρ) where
  config_eq := rfl
  lookup_eq _ := rfl
  indirect := by simp

/-- An acquisition for a direct scheme is refused before any provider is asked. -/
lemma acquire_of_isDirectScheme (B : Backend σ ρ) {input : Text} {uri : Url} {p : Pool ρ}
    (huri : Uri.parseAbsolute input = .ok uri) (hdirect : p.config.isDirectScheme uri.scheme = true)
    (s : σ) : p.acquire B input s = (.error (.invalidArgument (.schemeNotAllowed input)), p, s) := by
  have hprovider : p.provider input = .error (.invalidArgument (.schemeNotAllowed input)) := by
    unfold provider
    rw [huri]
    simp [Except.mapError, bind, Except.bind, hdirect, throw, throwThe, MonadExceptOf.throw]
  rw [acquire, hprovider]

/-- Behind any turns, in which anything may be asked for and go on besides, the schemes of a pool are
settled by the registrations asked for in their order. A registration goes through exactly if it is
free behind those granted before, and if it fails, its steps have written nothing. A scheme leads to
the first granted registration that names it, in whatever case, and will do so behind any later
turns. No scheme that addresses the host directly is ever registered, and nobody is asked for one. -/
theorem registry_run (B : Backend σ ρ) (config : PoolConfig) (turns : List (Turn σ)) (s : σ) :
    let p : Pool ρ := (run B turns (ofConfig config, s)).1
    let granted := Registration.grantAll config (turns.filterMap Turn.request?)
    (∀ g : Registration, ∀ s',
      (g.isFree config granted = true →
        (registerInSteps g).run.run p =
          (.ok (), (step B (.register g.schemes g.provider) (p, s')).1)) ∧
      (g.isFree config granted = false → ∃ e, (registerInSteps g).run.run p = (.error e, p) ∧
        (step B (.register g.schemes g.provider) (p, s')).1 = p)) ∧
      (∀ scheme, p.registry.get? scheme = Registration.providerOf granted scheme) ∧
      (∀ scheme id, p.registry.get? scheme = some id → ∀ later,
        (run B (turns ++ later) (ofConfig config, s)).1.registry.get? scheme = some id) ∧
      (∀ scheme, config.isDirectScheme scheme = true →
        p.registry.get? scheme = none ∧ scheme ∉ p.registry.schemes) ∧
      ∀ input uri, Uri.parseAbsolute input = .ok uri → config.isDirectScheme uri.scheme = true →
        ∀ s', p.acquire B input s' =
          (.error (.invalidArgument (.schemeNotAllowed input)), p, s') := by
  intro p granted
  have hp : Granted config granted p := (granted_ofConfig config).run B turns
  refine ⟨fun g _ => hp.attempt g, hp.get?_eq, fun scheme id hid later => ?_,
    fun scheme hdirect => ?_, fun input uri huri hdirect s' => ?_⟩
  · have hlater : Granted config
        (Registration.grantAll config ((turns ++ later).filterMap Turn.request?))
        (run B (turns ++ later) (ofConfig config, s) : Pool ρ × σ).1 :=
      (granted_ofConfig config).run B (turns ++ later)
    rw [hlater.get?_eq, Registration.grantAll, List.filterMap_append, List.foldl_append]
    rw [hp.get?_eq] at hid
    exact Registration.providerOf_of_prefix (Registration.prefix_foldl_grant config _ _) hid
  · refine ⟨hp.get?_eq_none hdirect, fun hmem => ?_⟩
    rw [hp.isDirectScheme_of_mem_schemes hmem] at hdirect
    cases hdirect
  · rw [← hp.config_eq] at hdirect
    exact acquire_of_isDirectScheme B huri hdirect s'

/-! ### Contested schemes -/

/-- Requests for providers. The second one wants a scheme that is taken by then, and the third one a
scheme that addresses the host directly. -/
def contested : List Registration :=
  [⟨["Jar".toList, "zip".toList, "JAR".toList], 0⟩, ⟨["tar".toList, "jAr".toList], 1⟩,
    ⟨["tar".toList, "File".toList], 2⟩, ⟨["TAR".toList], 3⟩]

/-- The turns that ask for them, one after the other. -/
def contest : List (Turn World) := contested.map fun g => .register g.schemes g.provider

/-- A world in which there is nothing yet. -/
def barren : World := ⟨Host.ofWorkingDir [], [], [], []⟩

/-- The first provider has its schemes, the second and third ones have none, and the fourth gets the
scheme that they have asked for in vain. -/
theorem registry_contest :
    let p : Pool ProvidedResource := (run World.backend contest (ofConfig {}, barren)).1
    p.registry.get? "JAR".toList = some 0 ∧ p.registry.get? "tar".toList = some 3 ∧
      (run World.backend (contest ++ contest) (ofConfig {}, barren)).1.registry.get? "ZIP".toList =
        some 0 ∧
      p.registry.get? "FILE".toList = none ∧
      (∃ e, (registerInSteps ⟨["cab".toList, "tar".toList], 4⟩).run.run p = (.error e, p)) ∧
      p.acquire World.backend "file:///z".toList barren =
        (.error (.invalidArgument (.schemeNotAllowed "file:///z".toList)), p, barren) := by
  intro p
  obtain ⟨hattempt, hget, hkeeps, hdirect, hacquire⟩ := registry_run World.backend {} contest barren
  have hzip : p.registry.get? "ZIP".toList = some 0 := (hget _).trans (by decide +kernel)
  obtain ⟨e, hfails, -⟩ := (hattempt ⟨["cab".toList, "tar".toList], 4⟩ barren).2 (by decide +kernel)
  exact ⟨(hget _).trans (by decide +kernel), (hget _).trans (by decide +kernel),
    hkeeps _ _ hzip contest, (hdirect _ (by decide +kernel)).1, ⟨e, hfails⟩,
    hacquire _ ⟨"file".toList, some [], "/z".toList, none, none⟩
      (eq_ok_of_toOption (by decide +kernel)) (by decide +kernel) barren⟩

end Pool

end ContentMounts
