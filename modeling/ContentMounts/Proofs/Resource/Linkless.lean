import ContentMounts.Proofs.Alias.SameObject
import ContentMounts.Proofs.Resource.Containment

/-!
# Containment where there are no links

A path is unlinked if it leads, if anywhere, where its folded form is spelled, and is not a link
itself. Then whichever check finds an alias, the alias folds to that form, too, whether there is
anything at the place or not (`Host.Unlinked.fold_of_detect`), and a resource is judged by its folded
path (`FileResource.Resolves.target?_eq_fold`).

On a host without symbolic links a path leads, if anywhere, to the place that its segments spell:
a `.` stays and a `..` goes to the directory above (`Path.placeFrom`). So every path is unlinked
(`Host.HasNoLinks.unlinked`), and what is left of containment is spelling: one resource lies under
another one exactly if its place does (`isContainedIn_iff_places`).
-/

namespace ContentMounts

namespace Path

/-- The place that segments lead to from another place if no links are in the way: a `.` stays, a
`..` goes to the directory above, at the root to the root, and any other segment goes on. -/
def placeFrom : List Name → List Name → List Name
  | place, [] => place
  | place, s :: rest =>
    if s = Name.dot then placeFrom place rest
    else if s = Name.dotDot then placeFrom place.dropLast rest
    else placeFrom (place ++ [s]) rest

/-- Folding keeps the names of the place in reverse. -/
lemma foldl_push_eq_placeFrom (place names : List Name) :
    names.foldl (Folded.push true) ⟨0, place.reverse⟩ = ⟨0, (placeFrom place names).reverse⟩ := by
  induction names generalizing place with
  | nil => rfl
  | cons s rest ih =>
    rw [List.foldl_cons, placeFrom, Folded.push]
    by_cases hdot : s = Name.dot
    · rw [if_pos hdot, if_pos hdot]
      exact ih place
    · rw [if_neg hdot, if_neg hdot]
      by_cases hdots : s = Name.dotDot
      · rw [if_pos hdots, if_pos hdots, ← ih place.dropLast, ← List.tail_reverse]
        cases place.reverse <;> rfl
      · rw [if_neg hdots, if_neg hdots, ← ih (place ++ [s]), List.reverse_append]
        rfl

/-- What is left when the dots at the root are folded is the place that the segments lead to. -/
lemma foldSegments_eq_placeFrom (names : List Name) :
    foldSegments true names = placeFrom [] names := by
  have hfold := foldl_push_eq_placeFrom [] names
  rw [List.reverse_nil] at hfold
  rw [foldSegments, hfold, Folded.segments, List.reverse_reverse]
  rfl

/-- Of two folded paths at the root, one starts with the other exactly if its place does. -/
lemma startsWith_fold_iff {p q : Path} (hp : p.isAbsolute = true) (hq : q.isAbsolute = true) :
    p.fold.startsWith q.fold = true ↔ placeFrom [] q.segments <+: placeFrom [] p.segments := by
  have hproper : ∀ r : Path, ∀ s ∈ foldSegments true r.segments, Name.IsProper s :=
    fun r => isProper_of_mem_foldSegments isSegment_of_mem_segments
  rw [fold, fold, hp, hq, startsWith_ofSegments_iff (hproper p) (hproper q),
    foldSegments_eq_placeFrom, foldSegments_eq_placeFrom]

end Path

namespace Host

variable {h : Host}

/-- There are no symbolic links on a host. -/
def HasNoLinks (h : Host) : Prop := ∀ place, NoLinkAt h.root place

/-- There are no links in a directory if there are none in what it holds. -/
lemma noLinkAt_dir {modified : Moment} {es : List (Name × Node)}
    (hes : ∀ entry ∈ es, ∀ place, NoLinkAt entry.2 place) (place : List Name) :
    NoLinkAt (.dir modified es) place := by
  intro target hlink
  obtain ⟨entry, hentry, rest, hrest⟩ := exists_entry_of_find?_link hlink
  exact hes entry hentry rest target hrest

lemma noLinkAt_file (id : FileId) (place : List Name) : NoLinkAt (.file id) place := by
  intro target hlink
  cases place with
  | nil => cases hlink
  | cons s rest => cases hlink

/-- A walk ends at the place that its segments lead to. -/
lemma HasNoLinks.names_eq (hnone : h.HasNoLinks) {manner : Manner} {links : Nat}
    {place segments : List Name} {mustBeDir : Bool} {l : Located}
    (hl : Walks h.root manner links place segments mustBeDir l) :
    l.names = Path.placeFrom place segments := by
  induction hl with
  | here _ _ => rfl
  | dot _ _ ih =>
    rw [Path.placeFrom, if_pos rfl]
    exact ih
  | up _ _ ih =>
    rw [Path.placeFrom, if_neg (by decide), if_pos rfl]
    exact ih
  | name he _ _ ih =>
    rw [Path.placeFrom, if_neg he.ne_dot, if_neg he.ne_dotDot]
    exact ih
  | follow he _ _ _ _ => exact absurd he.find? (hnone _ _)
  | stop he _ => exact absurd he.find? (hnone _ _)

/-- No link shows in a path: it leads, if anywhere, where its folded form is spelled, and it is not a
link itself. -/
structure Unlinked (h : Host) (p : Path) : Prop where
  fold_eq : ∀ c, h.LeadsTo p c → c = p.fold
  not_link : ∀ target, h.lstat p ≠ .ok (.link target)

lemma HasNoLinks.unlinked (hnone : h.HasNoLinks) {p : Path} (habs : p.isAbsolute = true) :
    h.Unlinked p where
  fold_eq := by
    rintro c ⟨l, hl, rfl⟩
    rw [hnone.names_eq hl, ← Path.foldSegments_eq_placeFrom, Path.fold, habs, pathOf]
  not_link target hlink := by
    obtain ⟨names, hl⟩ := exists_walks_of_lstat habs hlink
    exact hnone names target hl.find?

/-- What the spelling of an address finds is a real path or the path itself. -/
lemma cases_of_encodingAlias? {raw p a : Path} (ha : h.platform.encodingAlias? raw p = some a) :
    h.canonicalize raw = .ok a ∨ h.canonicalize p = .ok a ∨ a = p := by
  unfold Platform.encodingAlias? at ha
  split at ha
  · cases ha
  · split at ha
    · next hreal =>
      obtain rfl := Option.some.inj ha
      exact .inl hreal
    · next hreal =>
      obtain rfl := Option.some.inj ha
      exact .inr (.inl hreal)
    · split at ha
      · exact .inr (.inr (Option.some.inj ha).symm)
      · cases ha

/-- Whichever check finds an alias of an unlinked path, the alias starts at the root and has the
folded form of the path. Only the folded dots of a relative path stay relative. -/
lemma Unlinked.fold_of_detect {p : Path} (hp : h.Unlinked p) (habs : p.isAbsolute = true)
    {given : Bool} {raw a : Path} (hgiven : given = true → raw.isAbsolute = true)
    (hsegments : raw.isAbsolute = true → p.segments = raw.segments)
    (hfrom : raw.isAbsolute = true ∨ p.hasDots = false)
    (ha : h.platform.detect given raw p = some a) : a.isAbsolute = true ∧ a.fold = p.fold := by
  have hreal : ∀ {q c : Path}, q.isAbsolute = true → q.segments = p.segments →
      h.canonicalize q = .ok c → c.isAbsolute = true ∧ c.fold = p.fold := by
    intro q c hq hqp hc
    rw [hp.fold_eq c ((leadsTo_of_canonicalize hq hc).congr hqp), Path.isAbsolute_fold,
      Path.fold_fold habs]
    exact ⟨habs, rfl⟩
  rcases Platform.cases_of_detect ha with ⟨hurl, hencoding⟩ | ⟨-, hdot⟩ | ⟨-, hlink⟩ | hfound
  · have hraw := hgiven hurl
    rcases cases_of_encodingAlias? hencoding with hc | hc | rfl
    · exact hreal hraw (hsegments hraw).symm hc
    · exact hreal habs rfl hc
    · exact ⟨habs, rfl⟩
  · rw [FileResource.dotAlias?_eq habs] at hdot
    split at hdot
    · next hdots =>
      have hraw : raw.isAbsolute = true := hfrom.resolve_right (by simp [hdots])
      obtain rfl := Option.some.inj hdot
      rw [Path.isAbsolute_fold, Path.fold_fold hraw, Path.fold, Path.fold, hraw, habs,
        hsegments hraw]
      exact ⟨rfl, rfl⟩
    · cases hdot
  · rw [FileResource.linkAlias?_eq] at hlink
    split at hlink
    · next target hfound => exact absurd hfound (hp.not_link target)
    · cases hlink
  · exact hreal habs rfl (canonicalize_of_realAlias? hfound)

end Host

namespace FileResource

variable {h : Host}

/-- A resource with an unlinked path is judged by its folded path. -/
lemma Resolves.target?_eq_fold {given : Bool} {raw : Path} {r : FileResource}
    (hr : Resolves h given raw r) (hpath : h.Unlinked r.path)
    (hfrom : raw.isAbsolute = true ∨ r.path.hasDots = false) :
    r.target? h.platform = some r.path.fold := by
  have hparts : (r.aliasPath.getD r.path).isAbsolute = true ∧
      (r.aliasPath.getD r.path).fold = r.path.fold := by
    cases halias : r.aliasPath with
    | none => exact ⟨hr.isAbsolute, rfl⟩
    | some a =>
      have hdetect := hr.alias_eq.symm.trans halias
      exact hpath.fold_of_detect hr.isAbsolute hr.raw_isAbsolute hr.segments_eq hfrom hdetect
  rw [target?_eq_ite, if_pos hparts.1, hparts.2]

lemma Resolves.target?_eq (hnone : h.HasNoLinks) {given : Bool} {raw : Path} {r : FileResource}
    (hr : Resolves h given raw r) (hraw : raw.isAbsolute = true) :
    r.target? h.platform = some r.path.fold :=
  hr.target?_eq_fold (hnone.unlinked hr.isAbsolute) (.inl hraw)

/-- On a host without links a resource given by an address or a path from the root lies under
another such resource exactly if the place its segments lead to lies under the other's, whether
there is anything at these places or not. -/
theorem isContainedIn_iff_places (hnone : h.HasNoLinks) {given given' : Bool} {raw raw' : Path}
    {inner outer : FileResource} (hinner : Made h given raw inner) (houter : Made h given' raw' outer)
    (hraw : raw.isAbsolute = true) (hraw' : raw'.isAbsolute = true) :
    inner.isContainedIn h.platform outer = true ↔
      Path.placeFrom [] outer.path.segments <+: Path.placeFrom [] inner.path.segments := by
  rw [isContainedIn, hinner.resolves.target?_eq hnone hraw, houter.resolves.target?_eq hnone hraw']
  exact Path.startsWith_fold_iff hinner.resolves.isAbsolute houter.resolves.isAbsolute

/-! ### A yard -/

/-- A host with a yard that holds a note, and another file whose name starts alike. -/
def yardHost : Host where
  rootModified := .tick 0
  rootEntries :=
    [(Utf8.encode "yard".toList, .dir (.tick 0) [(Utf8.encode "note".toList, .file 0)]),
      (Utf8.encode "yardage".toList, .file 1)]
  files := [⟨[], .tick 0⟩, ⟨[], .tick 0⟩]
  clock := 1
  workingDir := []

lemma hasNoLinks_yardHost : yardHost.HasNoLinks := by
  refine Host.noLinkAt_dir fun entry hentry => ?_
  simp only [yardHost, List.mem_cons, List.not_mem_nil, or_false] at hentry
  rcases hentry with rfl | rfl
  · refine Host.noLinkAt_dir fun inner hinner => ?_
    obtain rfl := List.mem_singleton.mp hinner
    exact Host.noLinkAt_file 0
  · exact Host.noLinkAt_file 1

/-- The resource for the yard, given by a path over a shed that is missing. -/
def yard : FileResource where
  uri := ⟨"file".toList, some [], "/shed/../yard".toList, none, none⟩
  literal := "file:///shed/../yard".toList
  path := Path.ofText "/shed/../yard".toList
  aliasPath := some (Path.ofText "/yard".toList)

/-- A resource below the yard that was given by an address. -/
def belowYard (address sub : String) (found : Path) : FileResource where
  uri := ⟨"file".toList, some [], address.toList, none, none⟩
  literal := yard.literal ++ sub.toList
  path := (Path.ofText ("/shed/../yard".toList ++ sub.toList)).collapse
  aliasPath := some found

lemma made_yard : Made yardHost false (Path.ofText "/shed/../yard/".toList) yard :=
  .fromPath (eq_ok_of_toOption (by decide +kernel))

/-- What leaves the yard and comes back into it lies under the yard, although nothing is there, and
what leaves it for a name that starts alike does not. -/
theorem isContainedIn_yard :
    ∃ later away, yard.resolve yardHost.platform "../hedge/../yard//later/".toList = .ok later ∧
      yard.resolve yardHost.platform "gone/../../yardage".toList = .ok away ∧
      later.isContainedIn yardHost.platform yard = true ∧
      away.isContainedIn yardHost.platform yard = false := by
  have hlater : yard.resolve yardHost.platform "../hedge/../yard//later/".toList =
      .ok (belowYard "/yard/later/" "/../hedge/../yard/later/"
        (Path.ofText "/shed/../yard/../hedge/../yard/later".toList)) :=
    eq_ok_of_toOption (by decide +kernel)
  have haway : yard.resolve yardHost.platform "gone/../../yardage".toList =
      .ok (belowYard "/yardage" "/gone/../../yardage" (Path.ofText "/yardage".toList)) :=
    eq_ok_of_toOption (by decide +kernel)
  have hlaterPath : Uri.literalPath? (below yard.literal "../hedge/../yard//later/".toList) =
      some (Path.ofText "/shed/../yard/../hedge/../yard/later/".toList) := by decide +kernel
  have hawayPath : Uri.literalPath? (below yard.literal "gone/../../yardage".toList) =
      some (Path.ofText "/shed/../yard/gone/../../yardage".toList) := by decide +kernel
  refine ⟨_, _, hlater, haway, ?_, Bool.eq_false_iff.mpr fun hin => ?_⟩
  · exact (isContainedIn_iff_places hasNoLinks_yardHost (.resolve made_yard hlater hlaterPath)
      made_yard rfl rfl).mpr (by decide +kernel)
  · have hplaces := (isContainedIn_iff_places hasNoLinks_yardHost
      (.resolve made_yard haway hawayPath) made_yard rfl rfl).mp hin
    exact absurd hplaces (by decide +kernel)

end FileResource

end ContentMounts
