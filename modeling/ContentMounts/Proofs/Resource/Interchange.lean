import ContentMounts.Proofs.Resource.Linkless

/-!
# Equal resources and containment

Containment compares the paths by which resources are judged, part by part, so it is transitive, and
a resource lies under itself if it is judged by a path at all. Equality compares the paths
themselves. The path by which a resource is judged is an alias of its path, and which alias is found
depends on the spelling that the resource was given by. So equal resources need not lie under the
same resources: they are interchangeable exactly if they are judged by the same path
(`interchangeable_iff`).

There are two reasons for which they are. If both were spelled alike, the same check has found the
same alias (`SpelledAlike.target?_eq`). If no link shows in their path, it does not matter which
check has found one (`Resolves.target?_eq_fold`).
-/

namespace ContentMounts

namespace Path

/-! ## Paths that start with others -/

lemma startsWith_self (p : Path) : p.startsWith p = true :=
  Bool.and_eq_true_iff.mpr
    ⟨beq_self_eq_true _, List.isPrefixOf_iff_prefix.mpr (List.prefix_refl p.components)⟩

lemma startsWith_trans {p q r : Path} (hpq : p.startsWith q = true) (hqr : q.startsWith r = true) :
    p.startsWith r = true := by
  rw [startsWith, Bool.and_eq_true, beq_iff_eq, List.isPrefixOf_iff_prefix] at hpq hqr ⊢
  exact ⟨hpq.1.trans hqr.1, hqr.2.trans hpq.2⟩

/-- Folded paths at the root that start with each other are one path. -/
lemma eq_of_startsWith_fold {p q : Path} (hp : p.isAbsolute = true) (hq : q.isAbsolute = true)
    (hpq : p.fold.startsWith q.fold = true) (hqp : q.fold.startsWith p.fold = true) :
    p.fold = q.fold := by
  rw [startsWith_fold_iff hp hq] at hpq
  rw [startsWith_fold_iff hq hp] at hqp
  have hplaces := hpq.eq_of_length_le hqp.length_le
  rw [fold, fold, hp, hq, foldSegments_eq_placeFrom, foldSegments_eq_placeFrom, hplaces]

/-- A `.` among segments leads nowhere else. -/
lemma placeFrom_filter (place names : List Name) :
    placeFrom place (names.filter (· != Name.dot)) = placeFrom place names := by
  induction names generalizing place with
  | nil => rfl
  | cons s rest ih =>
    by_cases hs : s = Name.dot
    · rw [hs, List.filter_cons_of_neg (by simp), placeFrom, if_pos rfl]
      exact ih place
    · rw [List.filter_cons_of_pos (by simpa using hs), placeFrom, placeFrom, if_neg hs, if_neg hs,
        ih, ih]

/-- Paths with the same parts at the root have the same folded form. -/
lemma fold_eq_of_sameComponents {p q : Path} (hp : p.isAbsolute = true) (hq : q.isAbsolute = true)
    (h : p.sameComponents q = true) : p.fold = q.fold := by
  rw [sameComponents, Bool.and_eq_true, beq_iff_eq, beq_iff_eq, components, components, if_pos hp,
    if_pos hq] at h
  rw [fold, fold, hp, hq, foldSegments_eq_placeFrom, foldSegments_eq_placeFrom,
    ← placeFrom_filter [] p.segments, h.2, placeFrom_filter]

end Path

namespace FileResource

variable {h : Host}

/-! ## Judged paths -/

/-- A resource is judged by a folded path at the root, or by none. -/
lemma exists_of_target? {r : FileResource} {p : Path} (hp : r.target? h.platform = some p) :
    ∃ q : Path, q.isAbsolute = true ∧ p = q.fold := by
  rw [target?_eq_ite] at hp
  split at hp
  · next habs => exact ⟨_, habs, (Option.some.inj hp).symm⟩
  · cases hp

lemma isContainedIn_iff {inner outer : FileResource} :
    inner.isContainedIn h.platform outer = true ↔
      ∃ p q, inner.target? h.platform = some p ∧ outer.target? h.platform = some q ∧
        p.startsWith q = true := by
  unfold isContainedIn
  cases inner.target? h.platform with
  | none => simp
  | some p => cases outer.target? h.platform <;> simp

/-- A resource lies under itself if it is judged by a path. -/
lemma isContainedIn_self_iff {r : FileResource} :
    r.isContainedIn h.platform r = true ↔ (r.target? h.platform).isSome = true := by
  rw [isContainedIn_iff, Option.isSome_iff_exists]
  constructor
  · rintro ⟨p, -, hp, -⟩
    exact ⟨p, hp⟩
  · rintro ⟨p, hp⟩
    exact ⟨p, p, hp, hp, p.startsWith_self⟩

lemma isContainedIn_trans {a b c : FileResource} (hab : a.isContainedIn h.platform b = true)
    (hbc : b.isContainedIn h.platform c = true) : a.isContainedIn h.platform c = true := by
  obtain ⟨p, q, hp, hq, hpq⟩ := isContainedIn_iff.mp hab
  obtain ⟨q', r, hq', hr, hqr⟩ := isContainedIn_iff.mp hbc
  obtain rfl := Option.some.inj (hq.symm.trans hq')
  exact isContainedIn_iff.mpr ⟨p, r, hp, hr, Path.startsWith_trans hpq hqr⟩

/-! ## Interchangeable resources -/

/-- One of two resources lies under all that the other one lies under, and all that lies under the
one lies under the other. -/
def Interchangeable (h : Host) (a b : FileResource) : Prop :=
  ∀ given raw c, Made h given raw c →
    a.isContainedIn h.platform c = b.isContainedIn h.platform c ∧
      c.isContainedIn h.platform a = c.isContainedIn h.platform b

/-- Resources are interchangeable exactly if they are judged by the same path. -/
theorem interchangeable_iff {given given' : Bool} {raw raw' : Path} {a b : FileResource}
    (ha : Made h given raw a) (hb : Made h given' raw' b) :
    Interchangeable h a b ↔ a.target? h.platform = b.target? h.platform := by
  constructor
  · intro hsame
    obtain ⟨hab, haa⟩ := hsame _ _ a ha
    obtain ⟨hbb, hba⟩ := hsame _ _ b hb
    cases htarget : a.target? h.platform with
    | none =>
      have hnone : a.isContainedIn h.platform b = false := by rw [isContainedIn, htarget]
      rw [hnone, eq_comm, ← Bool.not_eq_true, isContainedIn_self_iff, Bool.not_eq_true,
        Option.isSome_eq_false_iff, Option.isNone_iff_eq_none] at hbb
      exact hbb.symm
    | some p =>
      have hself : a.isContainedIn h.platform a = true :=
        isContainedIn_self_iff.mpr (by rw [htarget]; rfl)
      obtain ⟨q, p', hq, hp', hqp⟩ := isContainedIn_iff.mp (hab.symm.trans hself)
      obtain ⟨p'', q', hp'', hq', hpq⟩ := isContainedIn_iff.mp (haa.symm.trans hself)
      obtain rfl := Option.some.inj (htarget.symm.trans hp')
      obtain rfl := Option.some.inj (htarget.symm.trans hp'')
      obtain rfl := Option.some.inj (hq.symm.trans hq')
      obtain ⟨x, hx, rfl⟩ := exists_of_target? htarget
      obtain ⟨y, hy, rfl⟩ := exists_of_target? hq
      rw [hq, Path.eq_of_startsWith_fold hx hy hpq hqp]
  · intro htarget given raw c _
    unfold isContainedIn
    rw [htarget]
    exact ⟨rfl, rfl⟩

/-! ## The same check -/

section

variable {given given' : Bool} {raw raw' : Path} {a b r : FileResource}

lemma Resolves.fold_eq (hr : Resolves h given raw r) (hraw : raw.isAbsolute = true) :
    raw.fold = r.path.fold := by
  rw [Path.fold, Path.fold, hraw, hr.isAbsolute, hr.segments_eq hraw]

/-- Whether a resource was given by an address that its path would not be written as. -/
def isOdd (h : Host) (given : Bool) (raw path : Path) : Bool :=
  given && raw != h.platform.ownUriPath path

/-- The alias of a resource that was not given by an odd address. -/
lemma Resolves.alias_of_own (hr : Resolves h given raw r) (hown : isOdd h given raw r.path = false) :
    r.aliasPath =
      (h.platform.dotAlias? raw r.path <|> h.platform.linkAlias? r.path <|>
        h.platform.realAlias? r.path) := by
  have hencoding : (if given then h.platform.encodingAlias? raw r.path else none) = none := by
    split
    · next hgiven =>
      have hraw : raw = h.platform.ownUriPath r.path := by simpa [isOdd, hgiven] using hown
      rw [Platform.encodingAlias?, if_pos hraw]
    · rfl
  rw [hr.alias_eq, Platform.detect, hencoding]
  rfl

/-- The alias of a resource that was given by an odd address, if it is there. -/
lemma Resolves.alias_of_odd (hr : Resolves h given raw r) (hodd : isOdd h given raw r.path = true)
    {c : Path} (hc : h.canonicalize r.path = .ok c) : r.aliasPath = some c := by
  rw [isOdd, Bool.and_eq_true, bne_iff_ne] at hodd
  have hraw := hr.raw_isAbsolute hodd.1
  have hencoding : h.platform.encodingAlias? raw r.path = some c := by
    rw [encodingAlias?_eq hraw hr.isAbsolute (hr.segments_eq hraw) hc, if_neg hodd.2]
  rw [hr.alias_eq, Platform.detect, if_pos hodd.1, hencoding]
  rfl

/-- Two resources were spelled alike: their paths are spelled the same, both or none of them were
given by an odd address of something that is there, and both or none of them were given from the
root. -/
structure SpelledAlike (h : Host) (given given' : Bool) (raw raw' : Path) (a b : FileResource) :
    Prop where
  path_eq : a.path = b.path
  isOdd_eq : isOdd h given raw a.path = isOdd h given' raw' b.path
  found : isOdd h given raw a.path = true → ∃ c, h.canonicalize a.path = .ok c
  isAbsolute_eq : raw.isAbsolute = raw'.isAbsolute

/-- Resources that were spelled alike are judged by the same path. -/
lemma SpelledAlike.target?_eq (hab : SpelledAlike h given given' raw raw' a b)
    (ha : Resolves h given raw a) (hb : Resolves h given' raw' b) :
    a.target? h.platform = b.target? h.platform := by
  have hpath := hab.path_eq
  have hodd := hab.isOdd_eq
  cases hway : isOdd h given raw a.path with
  | true =>
    obtain ⟨c, hc⟩ := hab.found hway
    rw [target?, target?, ha.alias_of_odd hway hc, hb.alias_of_odd (hodd ▸ hway) (hpath ▸ hc)]
    rfl
  | false =>
    have hfirst := ha.alias_of_own hway
    have hsecond := hb.alias_of_own (hodd ▸ hway)
    rw [dotAlias?_eq ha.isAbsolute] at hfirst
    rw [dotAlias?_eq hb.isAbsolute, ← hpath] at hsecond
    cases hdots : a.path.hasDots with
    | false =>
      rw [hdots] at hfirst hsecond
      rw [target?, target?, hfirst, hsecond, hpath]
      rfl
    | true =>
      rw [hdots, if_pos rfl] at hfirst hsecond
      rw [target?_eq_ite, target?_eq_ite, hfirst, hsecond]
      change (if raw.fold.isAbsolute then some raw.fold.fold else none) =
        if raw'.fold.isAbsolute then some raw'.fold.fold else none
      rw [Path.isAbsolute_fold, Path.isAbsolute_fold, ← hab.isAbsolute_eq]
      cases habs : raw.isAbsolute with
      | false => rfl
      | true => rw [ha.fold_eq habs, hb.fold_eq (hab.isAbsolute_eq ▸ habs), hpath]

end

/-! ## Containment and equality -/

/-- Containment is transitive, and a resource lies under itself exactly if it is judged by a path at
the root. Equal resources are interchangeable exactly if they are judged by the same path. That is so
if they were spelled alike, and it is so for any spellings, but for relative ones with dots, if no
link shows in their paths. -/
theorem containment_preorder {given given' : Bool} {raw raw' : Path} {a b : FileResource}
    (ha : Made h given raw a) (hb : Made h given' raw' b) :
    (a.isContainedIn h.platform a = true ↔ (a.target? h.platform).isSome = true) ∧
      (∀ given'' raw'' c, Made h given'' raw'' c → a.isContainedIn h.platform b = true →
        b.isContainedIn h.platform c = true → a.isContainedIn h.platform c = true) ∧
      (a.same b = true →
        (Interchangeable h a b ↔ a.target? h.platform = b.target? h.platform) ∧
        (SpelledAlike h given given' raw raw' a b → Interchangeable h a b) ∧
        (h.Unlinked a.path → h.Unlinked b.path → (raw.isAbsolute = true ∨ a.path.hasDots = false) →
          (raw'.isAbsolute = true ∨ b.path.hasDots = false) → Interchangeable h a b)) := by
  have hiff := interchangeable_iff ha hb
  refine ⟨isContainedIn_self_iff, fun _ _ _ _ => isContainedIn_trans, fun hsame => ⟨hiff,
    fun halike => ?_, fun hpath hpath' hfrom hfrom' => ?_⟩⟩
  · exact hiff.mpr (halike.target?_eq ha.resolves hb.resolves)
  · apply hiff.mpr
    rw [ha.resolves.target?_eq_fold hpath hfrom, hb.resolves.target?_eq_fold hpath' hfrom',
      Path.fold_eq_of_sameComponents ha.resolves.isAbsolute hb.resolves.isAbsolute hsame]

/-! ### The yard and the way out -/

/-- The resource for the yard that is given by an address over the shed. -/
def yardByAddress : FileResource where
  uri := ⟨"file".toList, some [], "/yard".toList, none, none⟩
  literal := "file:///shed/.././yard".toList
  path := Path.ofText "/shed/.././yard".toList
  aliasPath := some (Path.ofText "/yard".toList)

/-- It does not matter by which of its spellings the yard was given. -/
theorem containment_preorder_of_yard :
    Made yardHost true yardByAddress.path yardByAddress ∧ yard.same yardByAddress = true ∧
      yard.isContainedIn yardHost.platform yard = true ∧
      Interchangeable yardHost yard yardByAddress := by
  have hmade : Made yardHost true yardByAddress.path yardByAddress := by
    have hnew : ofUri yardHost.platform "file:///shed/.././yard".toList = .ok yardByAddress :=
      eq_ok_of_toOption (by decide +kernel)
    exact .new hnew (by decide +kernel)
  have hsame : yard.same yardByAddress = true := by decide +kernel
  obtain ⟨hself, -, hequal⟩ := containment_preorder made_yard hmade
  obtain ⟨-, -, hunlinked⟩ := hequal hsame
  exact ⟨hmade, hsame, hself.mpr (by decide +kernel),
    hunlinked (hasNoLinks_yardHost.unlinked rfl) (hasNoLinks_yardHost.unlinked rfl) (.inl rfl)
      (.inl rfl)⟩

/-- The resource for the link out of the directory that is given by an odd address. It is judged by
the real path. -/
def oddExit : FileResource where
  uri := ⟨"file".toList, some [], "/www//exit".toList, none, none⟩
  literal := "file:///www//exit".toList
  path := Path.ofText "/www/exit".toList
  aliasPath := some (Path.ofText "/secret".toList)

/-- The link and itself, given by an odd address, are equal, but only one of them lies under the
directory. -/
theorem not_interchangeable_exit :
    (∃ raw, Made siteHost true raw oddExit) ∧
      Made siteHost true (siteLink "exit" "door").path (siteLink "exit" "door") ∧
      Made siteHost false site.path site ∧ (siteLink "exit" "door").same oddExit = true ∧
      (siteLink "exit" "door").isContainedIn siteHost.platform site = true ∧
      oddExit.isContainedIn siteHost.platform site = false := by
  have hnew : ofUri siteHost.platform "file:///www//exit".toList = .ok oddExit :=
    eq_ok_of_toOption (by decide +kernel)
  have hraw : Uri.literalPath? "file:///www//exit".toList =
      some (Path.ofText "/www//exit".toList) := by decide +kernel
  refine ⟨⟨_, .new hnew hraw⟩, made_exit, made_site, ?_, ?_, ?_⟩
  · decide +kernel
  · decide +kernel
  · decide +kernel

end FileResource

end ContentMounts
