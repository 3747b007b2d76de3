import ContentMounts.Proofs.Alias.Unflagged

/-!
# Questions without an answer

A platform may fail to say where a path really leads, whether it is a link, or what the link holds.
Such a failure leaves the decision to the checks behind it, and two checks that look for an alias
then ask about another path, or take the resolved path itself. So the failures decide which check
finds the alias, and which alias that is.

Yet they cannot make one up. Each check that finds nothing does so because it has no answer or one
that speaks against an alias (`encodingAlias?_eq_none_iff` and its siblings), and with fewer answers
it still finds nothing. Two platforms that differ in failures only therefore resolve every address
and every path alike, except that the one with more failures may miss an alias (`hides_of_dims`).
-/

namespace ContentMounts

/-- A result has the path of another one, and an alias only if the other has one. -/
structure Resolved.Hides (r s : Resolved) : Prop where
  path_eq : r.path = s.path
  isAlias_of_isAlias : r.isAlias = true → s.isAlias = true

namespace Platform

/-! ## What each check needs -/

section

variable {plat : Platform} {raw absolute : Path}

/-- The first check finds nothing if the address is spelled as that of its path, or if no real path
is known and the address asks for no directory where there is none. -/
lemma encodingAlias?_eq_none_iff :
    plat.encodingAlias? raw absolute = none ↔ raw = plat.ownUriPath absolute ∨
      (∀ real, plat.realPath raw ≠ .ok real) ∧ (∀ real, plat.realPath absolute ≠ .ok real) ∧
        (raw.endsInSlash = true → plat.isDir absolute = true) := by
  unfold encodingAlias?
  split
  · next hown => exact iff_of_true rfl (.inl hown)
  · next hown =>
    cases plat.realPath raw <;> cases plat.realPath absolute <;> simp [hown]

/-- The third check finds nothing if there is no link that can be read. -/
lemma linkAlias?_eq_none_iff :
    plat.linkAlias? absolute = none ↔
      ∀ target, plat.isSymlink absolute = .ok true → plat.readLink absolute ≠ .ok target := by
  unfold linkAlias?
  split
  · next target hlink htarget => simp [hlink, htarget]
  · next hneither => exact iff_of_true rfl hneither

/-- The last check finds nothing if every real path of what exists is the path itself. -/
lemma realAlias?_eq_none_iff :
    plat.realAlias? absolute = none ↔ ∀ real, plat.pathExists absolute = true →
      plat.realPath absolute = .ok real → plat.sameName absolute real = true := by
  unfold realAlias?
  cases plat.pathExists absolute <;> cases plat.realPath absolute <;> simp

end

/-! ## Fewer answers -/

/-- An answer is another one or a failure. -/
def Fades {α : Type} (x y : Except IoError α) : Prop := x = y ∨ ∃ e, x = .error e

lemma Fades.eq_ok {α : Type} {x y : Except IoError α} {a : α} (h : Fades x y) (hx : x = .ok a) :
    y = .ok a := by
  rcases h with rfl | ⟨e, rfl⟩
  · exact hx
  · cases hx

/-- A platform gives the answers of another one, but may fail to give some of those that can
fail. -/
structure Dims (dim plat : Platform) : Prop where
  realPath : ∀ p, Fades (dim.realPath p) (plat.realPath p)
  isSymlink : ∀ p, Fades (dim.isSymlink p) (plat.isSymlink p)
  readLink : ∀ p, Fades (dim.readLink p) (plat.readLink p)
  pathExists_eq : ∀ p, dim.pathExists p = plat.pathExists p
  isDir_eq : ∀ p, dim.isDir p = plat.isDir p
  normalize_eq : ∀ p, dim.normalize p = plat.normalize p
  sameName_eq : ∀ p q, dim.sameName p q = plat.sameName p q

namespace Dims

variable {dim plat : Platform} (h : dim.Dims plat) {raw absolute : Path}

include h

lemma encodingAlias?_eq_none (hnone : plat.encodingAlias? raw absolute = none) :
    dim.encodingAlias? raw absolute = none := by
  rw [encodingAlias?_eq_none_iff] at hnone ⊢
  rw [ownUriPath, h.isDir_eq, ← ownUriPath]
  rcases hnone with hown | ⟨hraw, habsolute, hslash⟩
  · exact .inl hown
  · refine .inr ⟨fun real hreal => ?_, fun real hreal => ?_, hslash⟩
    · exact hraw real ((h.realPath raw).eq_ok hreal)
    · exact habsolute real ((h.realPath absolute).eq_ok hreal)

lemma dotAlias?_eq : dim.dotAlias? raw absolute = plat.dotAlias? raw absolute := by
  simp only [dotAlias?, h.sameName_eq, h.normalize_eq]

lemma linkAlias?_eq_none (hnone : plat.linkAlias? absolute = none) :
    dim.linkAlias? absolute = none := by
  rw [linkAlias?_eq_none_iff] at hnone ⊢
  exact fun target hlink htarget =>
    hnone target ((h.isSymlink absolute).eq_ok hlink) ((h.readLink absolute).eq_ok htarget)

lemma realAlias?_eq_none (hnone : plat.realAlias? absolute = none) :
    dim.realAlias? absolute = none := by
  rw [realAlias?_eq_none_iff] at hnone ⊢
  intro real hexists hreal
  rw [h.sameName_eq]
  exact hnone real (h.pathExists_eq absolute ▸ hexists) ((h.realPath absolute).eq_ok hreal)

/-- What has no alias has none with fewer answers either. -/
lemma detect_eq_none {fromUri : Bool} (hnone : plat.detect fromUri raw absolute = none) :
    dim.detect fromUri raw absolute = none := by
  obtain ⟨hencoding, hdots, hlink, hreal⟩ := detect_eq_none_iff.mp hnone
  exact detect_eq_none_iff.mpr ⟨fun hfrom => h.encodingAlias?_eq_none (hencoding hfrom),
    h.dotAlias?_eq.trans hdots, h.linkAlias?_eq_none hlink, h.realAlias?_eq_none hreal⟩

lemma hides_detect (fromUri : Bool) (path : Path) :
    Resolved.Hides ⟨path, dim.detect fromUri raw absolute⟩
      ⟨path, plat.detect fromUri raw absolute⟩ where
  path_eq := rfl
  isAlias_of_isAlias := by
    simp only [Resolved.isAlias, ← Option.ne_none_iff_isSome]
    exact mt h.detect_eq_none

end Dims

/-- With fewer answers an address is refused for the same reason or resolved to the same path, and a
path is resolved to the same path. Neither has an alias if it has none with all the answers. -/
theorem hides_of_dims {dim plat : Platform} (h : dim.Dims plat) :
    (∀ input,
      (∃ e, dim.resolveUri input = .error e ∧ plat.resolveUri input = .error e) ∨
      ∃ r s, dim.resolveUri input = .ok r ∧ plat.resolveUri input = .ok s ∧ r.Hides s) ∧
    ∀ workingDir raw, (dim.resolvePath workingDir raw).Hides (plat.resolvePath workingDir raw) := by
  refine ⟨fun input => ?_, fun workingDir raw => h.hides_detect false _⟩
  unfold resolveUri
  cases Uri.parseAbsolute input with
  | error e => exact .inl ⟨e, rfl, rfl⟩
  | ok u =>
    simp only [bind, Except.bind, throw, throwThe, MonadExceptOf.throw, pure, Except.pure]
    split
    · exact .inl ⟨_, rfl, rfl⟩
    · cases Uri.literalPath? input with
      | none => exact .inl ⟨_, rfl, rfl⟩
      | some raw => exact .inr ⟨_, _, rfl, rfl, h.hides_detect true _⟩

/-! ## Failures put in -/

/-- A platform that fails to answer about some paths. -/
def dim (plat : Platform) (fails : Path → Bool) : Platform where
  realPath p := if fails p then .error .permissionDenied else plat.realPath p
  isSymlink p := if fails p then .error .permissionDenied else plat.isSymlink p
  readLink p := if fails p then .error .permissionDenied else plat.readLink p
  pathExists := plat.pathExists
  isDir := plat.isDir
  normalize := plat.normalize
  sameName := plat.sameName

/-- Answers withheld are failures. -/
lemma dims_dim (plat : Platform) (fails : Path → Bool) : (plat.dim fails).Dims plat := by
  have hfades : ∀ {α : Type} (x : Except IoError α) (p : Path),
      Fades (if fails p then .error .permissionDenied else x) x := by
    intro α x p
    cases fails p with
    | false => exact .inl rfl
    | true => exact .inr ⟨_, rfl⟩
  exact
    { realPath := fun p => hfades _ p
      isSymlink := fun p => hfades _ p
      readLink := fun p => hfades _ p
      pathExists_eq := fun _ => rfl
      isDir_eq := fun _ => rfl
      normalize_eq := fun _ => rfl
      sameName_eq := fun _ _ => rfl }

/-- A host with a file and a link to it. -/
def noteHost : Host where
  rootModified := .tick 0
  rootEntries :=
    [(Utf8.encode "note".toList, .file 0),
      (Utf8.encode "door".toList, .link (Path.ofText "note".toList))]
  files := [⟨[], .tick 0⟩]
  clock := 1
  workingDir := []

/-- The answers of that host without those about the link. -/
def unlitDoor : Platform := noteHost.platform.dim fun p => p = Path.ofText "/door".toList

/-- Without the answers about the link, its path has no alias any more. An address that asks for a
directory there still has one, although not the file. -/
theorem hides_unlitDoor :
    (∃ r s, unlitDoor.resolveUri "file:///door/".toList = .ok r ∧
      noteHost.platform.resolveUri "file:///door/".toList = .ok s ∧ r.Hides s ∧
      r.aliasPath = some (Path.ofText "/door".toList) ∧
      s.aliasPath = some (Path.ofText "/note".toList)) ∧
    ∃ r s, unlitDoor.resolvePath (Host.pathOf []) (Path.ofText "/door".toList) = r ∧
      noteHost.platform.resolvePath (Host.pathOf []) (Path.ofText "/door".toList) = s ∧
      r.Hides s ∧ r.aliasPath = none ∧ s.aliasPath = some (Path.ofText "/note".toList) := by
  have hhides := hides_of_dims (dims_dim noteHost.platform fun p => p = Path.ofText "/door".toList)
  have hunlit : unlitDoor.resolveUri "file:///door/".toList =
      .ok ⟨Path.ofText "/door".toList, some (Path.ofText "/door".toList)⟩ :=
    eq_ok_of_toOption (by decide +kernel)
  have hlit : noteHost.platform.resolveUri "file:///door/".toList =
      .ok ⟨Path.ofText "/door".toList, some (Path.ofText "/note".toList)⟩ :=
    eq_ok_of_toOption (by decide +kernel)
  refine ⟨⟨_, _, hunlit, hlit, ?_, rfl, rfl⟩, _, _, rfl, rfl, hhides.2 _ _, ?_, ?_⟩
  · rcases hhides.1 "file:///door/".toList with ⟨e, he, -⟩ | ⟨r, s, hr, hs, hrs⟩
    · exact absurd (hunlit.symm.trans he) (by simp)
    · obtain rfl := Except.ok.inj (hunlit.symm.trans hr)
      obtain rfl := Except.ok.inj (hlit.symm.trans hs)
      exact hrs
  · decide +kernel
  · decide +kernel

end Platform

end ContentMounts
