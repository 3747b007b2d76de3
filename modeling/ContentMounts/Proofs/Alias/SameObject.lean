import ContentMounts.Assoc
import ContentMounts.Proofs.Alias.Unflagged
import ContentMounts.Proofs.Host.Parts
import ContentMounts.Proofs.Resource.Containment

/-!
# Aliases lead to the same object

An alias is another path to the object that a path leads to. The real path is one, and so is what a
link holds, taken from the directory that the link is in. A path whose dots are folded is one as
long as no `..` takes back a link (`TakesBackNoLink`): the host goes from the target of a link to
the directory above, and links are not looked at when dots are folded. With that proviso an alias
has the real path of the path that it was found for (`canonicalize_alias`); without it, it may lead
elsewhere (`exists_alias_elsewhere`).
-/

namespace ContentMounts

namespace Host

variable {h : Host}

/-! ## What resolution starts from -/

/-- Whether an address was given. -/
def Given.isAddress : Given → Bool
  | address _ => true
  | path _ => false

/-- The path that was given, as it was spelled. -/
def Given.literal? : Given → Option Path
  | address t => Uri.literalPath? t
  | path p => some p

lemma isSegment_of_mem_startOf_append (hcwd : ∀ s ∈ h.workingDir, Name.IsSegment s) (p : Path) :
    ∀ s ∈ h.startOf p ++ p.segments, Name.IsSegment s := by
  intro s hs
  rcases List.mem_append.mp hs with hstart | hp
  · unfold startOf at hstart
    split at hstart
    · cases hstart
    · exact hcwd s hstart
  · exact Path.isSegment_of_mem_segments s hp

/-- The path that something is resolved to has the segments that were given, behind those of the
working directory if the path that was given is relative. -/
lemma exists_of_resolve (hcwd : ∀ s ∈ h.workingDir, Name.IsSegment s) {given : Given} {r : Resolved}
    (hr : h.resolve given = .ok r) :
    ∃ raw, given.literal? = some raw ∧ r.path = pathOf (h.startOf raw ++ raw.segments) ∧
      (given.isAddress = true → raw.isAbsolute = true) ∧
      r.aliasPath = h.platform.detect given.isAddress raw r.path := by
  have hcollapse : ∀ {raw : Path}, raw.isAbsolute = true →
      raw.collapse = pathOf (h.startOf raw ++ raw.segments) := by
    intro raw habs
    rw [Path.collapse_of_isAbsolute habs, startOf, if_pos habs]
    rfl
  cases given with
  | address t =>
    obtain ⟨raw, hraw, rfl⟩ := Platform.exists_literalPath?_of_resolveUri hr
    have habs := Uri.isAbsolute_of_literalPath? hraw
    exact ⟨raw, hraw, hcollapse habs, fun _ => habs, rfl⟩
  | path raw =>
    cases hr
    refine ⟨raw, rfl, ?_, by rintro ⟨⟩, rfl⟩
    rw [Platform.resolvePath, Platform.anchor]
    split
    · next habs => exact hcollapse habs
    · next habs =>
      have hrelative : raw.isAbsolute = false := Bool.eq_false_iff.mpr habs
      have hstart : h.startOf raw = h.workingDir := by rw [startOf, if_neg habs]
      rw [Path.collapse_of_isAbsolute (Path.isAbsolute_join rfl raw), Path.segments_join hrelative,
        hstart, pathOf, Path.segments_ofSegments true hcwd, pathOf]

/-! ## Folded dots -/

/-- Each `..` of a path takes back a name that does not lead to a link. -/
def TakesBackNoLink (h : Host) (p : Path) : Prop :=
  ∀ init, init ++ [Name.dotDot] <+: p.segments →
    endsInLink h.root (h.startOf p ++ Path.foldSegments p.isAbsolute init) = false

/-- The segments in front of a `..` are told by their number. -/
lemma takesBackNoLink_iff {p : Path} : h.TakesBackNoLink p ↔
    ∀ n < p.segments.length, p.segments[n]? = some Name.dotDot →
      endsInLink h.root
        (h.startOf p ++ Path.foldSegments p.isAbsolute (p.segments.take n)) = false := by
  constructor
  · intro hback n _ hdots
    refine hback _ ?_
    have htake : p.segments.take n ++ [Name.dotDot] = p.segments.take (n + 1) := by
      rw [List.take_add_one, hdots]
      rfl
    rw [htake]
    exact List.take_prefix _ _
  · rintro hback init ⟨rest, hsplit⟩
    have hall := hback init.length (by simp [← hsplit]) (by simp [← hsplit])
    rwa [← hsplit, List.append_assoc, List.take_left] at hall

instance (p : Path) : Decidable (h.TakesBackNoLink p) := decidable_of_iff' _ takesBackNoLink_iff

section

variable {raw c : Path}

/-- A folded path, taken from the working directory if it is relative. -/
lemma segments_join_fold (hcwd : ∀ s ∈ h.workingDir, Name.IsSegment s) (raw : Path) :
    ((pathOf h.workingDir).join raw.fold).segments =
      h.startOf raw ++ Path.foldSegments raw.isAbsolute raw.segments := by
  cases habs : raw.isAbsolute with
  | true =>
    rw [Path.join, Path.isAbsolute_fold, if_pos habs, Path.segments_fold, startOf, habs, if_pos rfl]
    rfl
  | false =>
    rw [Path.segments_join ((Path.isAbsolute_fold raw).trans habs), Path.segments_fold, startOf,
      habs, if_neg Bool.false_ne_true, pathOf, Path.segments_ofSegments true hcwd]

/-- It ends in a separator only if nothing is left of the path that was folded. -/
lemma foldSegments_eq_nil_of_endsInSlash
    (hends : ((pathOf h.workingDir).join raw.fold).endsInSlash = true) :
    Path.foldSegments raw.isAbsolute raw.segments = [] := by
  by_contra hne
  have hsegments := Path.isSegment_of_mem_foldSegments raw.isAbsolute
    (Path.isSegment_of_mem_segments (p := raw))
  have hbytes : raw.fold.bytes ≠ [] := by
    intro hnil
    exact Path.intercalate_ne_nil hsegments hne (List.append_eq_nil_iff.mp hnil).2
  rw [Path.endsInSlash_join _ hbytes, Path.fold, Path.endsInSlash_ofSegments hsegments hne] at hends
  cases hends

/-- The dots of a path that is resolved are its own. -/
lemma segments_ne_nil_of_hasDots (hcwd : ∀ s ∈ h.workingDir, Name.IsProper s)
    (hdots : (pathOf (h.startOf raw ++ raw.segments)).hasDots = true) : raw.segments ≠ [] := by
  intro hnil
  have hstart : ∀ s ∈ h.startOf raw, Name.IsProper s := by
    unfold startOf
    split
    · simp
    · exact hcwd
  have hsegments : (pathOf (h.startOf raw)).segments = h.startOf raw :=
    Path.segments_ofSegments true fun s hs => (hstart s hs).toIsSegment
  have hnone : (pathOf (h.startOf raw)).hasDots = false := by
    rw [Path.hasDots_eq_false_iff, hsegments]
    exact hstart
  rw [hnil, List.append_nil, hnone] at hdots
  cases hdots

/-- A path whose dots are folded has the same real path, if no `..` takes back a link. -/
lemma canonicalize_join_fold (hcwd : ∀ s ∈ h.workingDir, Name.IsProper s)
    (hdots : (pathOf (h.startOf raw ++ raw.segments)).hasDots = true)
    (hback : h.TakesBackNoLink raw)
    (hc : h.canonicalize (pathOf (h.startOf raw ++ raw.segments)) = .ok c) :
    h.canonicalize ((pathOf h.workingDir).join raw.fold) = .ok c := by
  have hcwds : ∀ s ∈ h.workingDir, Name.IsSegment s := fun s hs => (hcwd s hs).toIsSegment
  have hsegments : (pathOf (h.startOf raw ++ raw.segments)).segments =
      h.startOf raw ++ raw.segments :=
    Path.segments_ofSegments true (isSegment_of_mem_startOf_append hcwds raw)
  obtain ⟨l, hl, rfl, -⟩ := exists_respelled_of_canonicalize rfl hc
  rw [hsegments] at hl
  have hl : Walks h.root { respells := true } linkLimit [] (h.startOf raw ++ raw.segments) false
      l :=
    hl.weaken rfl rfl id (Nat.le_refl linkLimit) (by simp)
  have hbase : raw.isAbsolute = true → h.startOf raw = [] := fun habs => by
    rw [startOf, if_pos habs]
  have hfolded := hl.fold rfl hbase Path.isSegment_of_mem_segments (Nat.le_refl linkLimit) hback
  have hfree : ∀ s ∈ h.startOf raw ++ raw.segments, 0 ∉ s := by
    intro s hs hmem
    rw [← hsegments] at hs
    exact zero_notMem_of_canonicalize hc (Path.mem_bytes_of_mem_segments hs hmem)
  have hjoined := segments_join_fold hcwds raw
  refine canonicalize_of_walks (Path.isAbsolute_join rfl _) ?_ (Nat.le_refl linkLimit) ?_
  · refine zero_notMem_of_segments fun s hs => ?_
    rw [hjoined] at hs
    rcases List.mem_append.mp hs with hstart | hraw
    · exact hfree s (List.mem_append_left _ hstart)
    · exact Path.forall_mem_foldSegments (by decide) _
        (fun t ht => hfree t (List.mem_append_right _ ht)) s hraw
  · rw [hjoined]
    refine hfolded.of_isDir rfl fun hends => ?_
    -- Nothing is left of the path, so the walk ends where the rest of the path is taken from.
    obtain ⟨used, left, mid, hused, hfirst, -⟩ := hl.split (segments_ne_nil_of_hasDots hcwd hdots)
    rw [foldSegments_eq_nil_of_endsInSlash hends, List.append_nil] at hfolded
    obtain rfl := hfolded.unique rfl
      (hfirst.weaken rfl rfl id (hused ▸ Nat.le_add_right used left) (by simp))
    exact hfirst.isDir rfl rfl

end

/-! ## Links -/

section

variable {path c target : Path}

/-- What a link holds, taken from the directory that the link is in, has the real path of the
link. -/
lemma canonicalize_targetFrom (hzero : h.HoldsNoZero)
    (hcollapsed : path = Path.ofSegments true path.segments) (hdots : path.hasDots = false)
    (hlink : h.lstat path = .ok (.link target)) (hc : h.canonicalize path = .ok c) :
    (FileResource.targetFrom path target).isAbsolute = true ∧
      h.canonicalize (FileResource.targetFrom path target) = .ok c := by
  obtain ⟨habs, hsegments, ⟨place, hplace⟩, l, rfl, hl⟩ :=
    FileResource.exists_walks_targetFrom hcollapsed hdots hlink hc
  refine ⟨habs, canonicalize_of_walks habs ?_ (Nat.le_refl linkLimit) hl⟩
  refine zero_notMem_of_segments fun t ht hmem => ?_
  rcases hsegments t ht with hold | hnew
  · exact zero_notMem_of_canonicalize hc (Path.mem_bytes_of_mem_segments hold hmem)
  · exact hzero place target hplace (Path.mem_bytes_of_mem_segments hnew hmem)

end

/-! ## Aliases -/

/-- What is found by asking where an object really is, is its real path. -/
lemma canonicalize_of_realAlias? {p a : Path} (ha : h.platform.realAlias? p = some a) :
    h.canonicalize p = .ok a := by
  unfold Platform.realAlias? at ha
  split at ha
  · split at ha
    · next hreal =>
      split at ha
      · cases ha
      · obtain rfl := Option.some.inj ha
        exact hreal
    · cases ha
  · cases ha

/-- There is no other alias to be found in this way. -/
lemma eq_of_realAlias? {path a c : Path} (hc : h.canonicalize path = .ok c)
    (ha : h.platform.realAlias? path = some a) : a = c :=
  Except.ok.inj ((canonicalize_of_realAlias? ha).symm.trans hc)

/-- The real path of a path has itself as its real path. -/
lemma canonicalize_join_real (hzero : h.HoldsNoZero) {p c : Path} (habs : p.isAbsolute = true)
    (hc : h.canonicalize p = .ok c) :
    h.canonicalize ((pathOf h.workingDir).join c) = .ok c := by
  obtain ⟨names, -, hnames, -⟩ := exists_names_of_canonicalize habs hc
  have hcabs : c.isAbsolute = true := by rw [hnames]; rfl
  rw [Path.join, if_pos hcabs]
  exact (canonicalize_of_canonicalize hzero habs hc).1

/-- An alias, taken from the working directory if it is relative, has the real path of the path that
it was found for. Where it may have been found by folding dots, no `..` of the path that was given
must take back a link for that. -/
theorem canonicalize_alias (hzero : h.HoldsNoZero) (hcwd : ∀ s ∈ h.workingDir, Name.IsProper s)
    {given : Given} {r : Resolved} {a c : Path} (hr : h.resolve given = .ok r)
    (ha : r.aliasPath = some a) (hc : h.canonicalize r.path = .ok c)
    (hback : ∀ raw, given.literal? = some raw →
      (given.isAddress = true → raw = h.platform.ownUriPath r.path) → h.TakesBackNoLink raw) :
    h.canonicalize ((pathOf h.workingDir).join a) = .ok c := by
  have hcwds : ∀ s ∈ h.workingDir, Name.IsSegment s := fun s hs => (hcwd s hs).toIsSegment
  obtain ⟨raw, hraw, hpath, haddress, halias⟩ := exists_of_resolve hcwds hr
  have habs : r.path.isAbsolute = true := by rw [hpath]; rfl
  have hpieces : r.path.segments = h.startOf raw ++ raw.segments := by
    rw [hpath]
    exact Path.segments_ofSegments true (isSegment_of_mem_startOf_append hcwds raw)
  have hrooted : given.isAddress = true → r.path.segments = raw.segments := fun hgiven => by
    rw [hpieces, startOf, if_pos (haddress hgiven)]
    rfl
  rw [halias] at ha
  rcases Platform.cases_of_detect ha with
    ⟨hgiven, hencoding⟩ | ⟨hencoding, hdot⟩ | ⟨hdot, hlink⟩ | hreal
  · rw [FileResource.encodingAlias?_eq (haddress hgiven) habs (hrooted hgiven) hc] at hencoding
    split at hencoding
    · cases hencoding
    · obtain rfl := Option.some.inj hencoding
      exact canonicalize_join_real hzero habs hc
  · have hown := hback raw hraw fun hgiven => by
      have hnone := hencoding hgiven
      rw [FileResource.encodingAlias?_eq (haddress hgiven) habs (hrooted hgiven) hc] at hnone
      split at hnone
      · assumption
      · cases hnone
    rw [FileResource.dotAlias?_eq habs] at hdot
    split at hdot
    · next hdots =>
      obtain rfl := Option.some.inj hdot
      rw [hpath] at hdots hc
      exact canonicalize_join_fold hcwd hdots hown hc
    · cases hdot
  · rw [FileResource.dotAlias?_eq habs] at hdot
    split at hdot
    · cases hdot
    · next hnot =>
      rw [FileResource.linkAlias?_eq] at hlink
      split at hlink
      · next target hheld =>
        obtain rfl := Option.some.inj hlink
        have hcollapsed : r.path = Path.ofSegments true r.path.segments := by
          rw [hpieces]
          exact hpath
        obtain ⟨htargetAbs, htarget⟩ := canonicalize_targetFrom hzero hcollapsed
          (Bool.eq_false_iff.mpr hnot) hheld hc
        rw [Path.join, if_pos htargetAbs]
        exact htarget
      · cases hlink
  · rw [eq_of_realAlias? hc hreal]
    exact canonicalize_join_real hzero habs hc

/-! ### A door to another house -/

/-- A host with a link that leads into another directory. A note lies in that directory and one at
the root; the working directory is that directory. -/
def doorHost : Host where
  rootModified := .tick 0
  rootEntries :=
    [(Utf8.encode "annex".toList, .dir (.tick 0)
      [(Utf8.encode "hall".toList, .dir (.tick 0) []), (Utf8.encode "note".toList, .file 0)]),
      (Utf8.encode "note".toList, .file 1),
      (Utf8.encode "door".toList, .link (Path.ofText "annex/hall".toList))]
  files := [⟨[], .tick 0⟩, ⟨[], .tick 0⟩]
  clock := 1
  workingDir := [Utf8.encode "annex".toList]

/-- A link in a directory is one of its entries or below one of them. -/
lemma exists_entry_of_find?_link {modified : Moment} {es : List (Name × Node)} {place : List Name}
    {target : Path} (hlink : (Node.dir modified es).find? place = some (.link target)) :
    ∃ entry ∈ es, ∃ rest, entry.2.find? rest = some (.link target) := by
  cases place with
  | nil => cases hlink
  | cons s rest =>
    obtain ⟨c, hc, hrest⟩ := Option.bind_eq_some_iff.mp hlink
    exact ⟨(s, c), Assoc.mem_of_lookup hc, rest, hrest⟩

lemma holdsNoZero_doorHost : doorHost.HoldsNoZero := by
  have hfile : ∀ {id : FileId} {place : List Name} {target : Path},
      (Node.file id).find? place ≠ some (.link target) := by
    rintro id (_ | ⟨s, rest⟩) target hlink <;> cases hlink
  intro place target hlink
  obtain ⟨entry, hentry, rest, hlink⟩ := exists_entry_of_find?_link hlink
  simp only [doorHost, List.mem_cons, List.not_mem_nil, or_false] at hentry
  rcases hentry with rfl | rfl | rfl
  · obtain ⟨inner, hinner, rest, hlink⟩ := exists_entry_of_find?_link hlink
    simp only [List.mem_cons, List.not_mem_nil, or_false] at hinner
    rcases hinner with rfl | rfl
    · obtain ⟨none, hnone, -⟩ := exists_entry_of_find?_link hlink
      cases hnone
    · exact absurd hlink hfile
  · exact absurd hlink hfile
  · cases rest with
    | nil =>
      obtain rfl := Node.link.inj (Option.some.inj hlink)
      decide +kernel
    | cons s rest => cases hlink

/-- The alias of a relative path that leads over dots and a link is relative and leads to the same
directory, and so does the alias of the link. -/
theorem canonicalize_alias_of_door :
    ∃ r a s b c, doorHost.resolve (.path (Path.ofText "hall/../../door".toList)) = .ok r ∧
      r.aliasPath = some a ∧ a = Path.ofText "../door".toList ∧
      doorHost.resolve (.address "file:///door/".toList) = .ok s ∧ s.aliasPath = some b ∧
      doorHost.canonicalize r.path = .ok c ∧ doorHost.canonicalize s.path = .ok c ∧
      doorHost.canonicalize ((pathOf doorHost.workingDir).join a) = .ok c ∧
      doorHost.canonicalize ((pathOf doorHost.workingDir).join b) = .ok c := by
  have hcwd : ∀ s ∈ doorHost.workingDir, Name.IsProper s := by
    intro s hs
    obtain rfl := List.mem_singleton.mp hs
    exact ⟨⟨by decide +kernel, by decide +kernel⟩, by decide +kernel, by decide +kernel⟩
  have hr : doorHost.resolve (.path (Path.ofText "hall/../../door".toList)) =
      .ok ⟨Path.ofText "/annex/hall/../../door".toList, some (Path.ofText "../door".toList)⟩ :=
    eq_ok_of_toOption (by decide +kernel)
  have hs : doorHost.resolve (.address "file:///door/".toList) =
      .ok ⟨Path.ofText "/door".toList, some (Path.ofText "/annex/hall".toList)⟩ :=
    eq_ok_of_toOption (by decide +kernel)
  have hc : doorHost.canonicalize (Path.ofText "/annex/hall/../../door".toList) =
      .ok (Path.ofText "/annex/hall".toList) := eq_ok_of_toOption (by decide +kernel)
  have hd : doorHost.canonicalize (Path.ofText "/door".toList) =
      .ok (Path.ofText "/annex/hall".toList) := eq_ok_of_toOption (by decide +kernel)
  refine ⟨_, _, _, _, _, hr, rfl, rfl, hs, rfl, hc, hd, ?_, ?_⟩
  · refine canonicalize_alias holdsNoZero_doorHost hcwd hr rfl hc fun raw hraw _ => ?_
    obtain rfl := Option.some.inj hraw
    decide +kernel
  · refine canonicalize_alias holdsNoZero_doorHost hcwd hs rfl hd fun raw hraw _ => ?_
    have hspelled : Uri.literalPath? "file:///door/".toList =
        some (Path.ofText "/door/".toList) := by decide +kernel
    obtain rfl := Option.some.inj (hspelled.symm.trans hraw)
    decide +kernel

/-- Behind the link a `..` leads to the directory above its target, but not if the dots are folded
first: the alias leads to another note. -/
theorem exists_alias_elsewhere :
    ∃ r a c d, doorHost.resolve (.path (Path.ofText "/door/../note".toList)) = .ok r ∧
      r.aliasPath = some a ∧ doorHost.canonicalize r.path = .ok c ∧
      doorHost.canonicalize ((pathOf doorHost.workingDir).join a) = .ok d ∧ d ≠ c := by
  refine ⟨⟨Path.ofText "/door/../note".toList, some (Path.ofText "/note".toList)⟩,
    Path.ofText "/note".toList, Path.ofText "/annex/note".toList, Path.ofText "/note".toList,
    ?_, rfl, ?_, ?_, ?_⟩
  · exact eq_ok_of_toOption (by decide +kernel)
  · exact eq_ok_of_toOption (by decide +kernel)
  · exact eq_ok_of_toOption (by decide +kernel)
  · decide +kernel

end Host

end ContentMounts
