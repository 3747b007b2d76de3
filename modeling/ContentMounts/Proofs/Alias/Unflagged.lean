import ContentMounts.Proofs.Alias.Resolve
import ContentMounts.Proofs.Host.RealPath
import ContentMounts.Proofs.Resource.Uri

/-!
# Paths without an alias

What the host's tree resolves without finding an alias is addressed in the one way that rules about
access may rely on. Its path is the real path, the address spells that path, and no two such paths
lead to one place (`canonicalize_eq_self_of_unflagged`).

A check that the host cannot answer leaves the decision to the next one, and the last check asks for
the real path. So all this is true as long as there is an answer. There is none where a place on the
way is spelled too long for the host, and then even a path over a link can go without an alias
(`exists_unflagged_of_tooLong`).
-/

namespace ContentMounts

namespace Host

variable {h : Host}

/-- What is given to be resolved. -/
inductive Given where
  | address (t : Text)
  | path (p : Path)

/-- What the host's tree resolves an address or a path to. -/
def resolve (h : Host) : Given → Except ResourceError Resolved
  | .address t => h.platform.resolveUri t
  | .path p => .ok (h.platform.resolvePath (pathOf h.workingDir) p)

/-- Something is resolved to a path that leads somewhere, no alias of it is found, and the host does
not refuse to give its real path as too long. -/
structure Unflagged (h : Host) (given : Given) (r : Resolved) : Prop where
  resolves : h.resolve given = .ok r
  aliasPath_eq : r.aliasPath = none
  found : h.pathExists r.path = true
  answered : h.canonicalize r.path ≠ .error .invalidFilename

/-- Two paths lead to one place of the tree. -/
def SamePlace (h : Host) (p q : Path) : Prop :=
  ∃ l m, h.locate {} p = .ok l ∧ h.locate {} q = .ok m ∧ l.names = m.names

lemma exists_locate_of_pathExists {p : Path} (hp : h.pathExists p = true) :
    ∃ l, h.locate {} p = .ok l ∧ h.stat p = .ok l.node := by
  unfold pathExists stat at hp
  cases hl : h.locate {} p with
  | error e =>
    rw [hl] at hp
    cases hp
  | ok l => exact ⟨l, rfl, by rw [stat, hl]; rfl⟩

/-- What is resolved is at the root and has single separators, and the last check has seen it. -/
lemma collapsed_of_resolve {given : Given} {r : Resolved} (hr : h.resolve given = .ok r)
    (hnone : r.aliasPath = none) :
    r.path = pathOf r.path.segments ∧ h.platform.realAlias? r.path = none := by
  have hcollapse : ∀ {p : Path}, p.isAbsolute = true → p.collapse = pathOf p.collapse.segments := by
    intro p habs
    rw [Path.segments_collapse, Path.collapse_of_isAbsolute habs, pathOf]
  cases given with
  | address t =>
    obtain ⟨raw, hraw, rfl⟩ := Platform.exists_literalPath?_of_resolveUri hr
    obtain ⟨-, -, -, hreal⟩ := Platform.detect_eq_none_iff.mp hnone
    exact ⟨hcollapse (Uri.isAbsolute_of_literalPath? hraw), hreal⟩
  | path p =>
    cases hr
    obtain ⟨-, -, -, hreal⟩ := Platform.detect_eq_none_iff.mp hnone
    refine ⟨?_, hreal⟩
    rw [Platform.resolvePath, Platform.anchor]
    split
    · next habs => exact hcollapse habs
    · exact hcollapse (Path.isAbsolute_join rfl p)

/-- The real path of what is resolved without an alias is the path itself. -/
lemma Unflagged.canonicalize_eq {given : Given} {r : Resolved} (hr : h.Unflagged given r) :
    h.canonicalize r.path = .ok r.path := by
  obtain ⟨hcollapsed, hreal⟩ := collapsed_of_resolve hr.resolves hr.aliasPath_eq
  have habs : r.path.isAbsolute = true := by
    rw [hcollapsed]
    rfl
  obtain ⟨l, hl, -⟩ := exists_locate_of_pathExists hr.found
  rcases canonicalize_eq_or_of_locate habs hl with hc | hlong
  · obtain ⟨names, -, hnames, hproper, -⟩ := exists_names_of_canonicalize habs hc
    have hexists : h.platform.pathExists r.path = true := hr.found
    have hanswer : h.platform.realPath r.path = .ok (pathOf l.names) := hc
    rw [Platform.realAlias?, hexists, if_pos rfl, hanswer] at hreal
    dsimp only at hreal
    split at hreal
    · next hsame =>
      have hsegments : r.path.segments = (pathOf l.names).segments := by
        simpa [Host.platform, Path.sameSegments] using hsame
      rw [hnames, pathOf, Path.segments_ofSegments true fun s hs => (hproper s hs).toIsSegment]
        at hsegments
      rw [hc, hnames, hcollapsed, hsegments]
    · cases hreal
  · exact absurd hlong hr.answered

/-- An address that has the spelling of its own path and no alias holds that path, and a separator
behind it if the path leads to a directory other than the root. -/
lemma Unflagged.bytes_eq {t : Text} {r : Resolved} (hr : h.Unflagged (.address t) r) :
    ∃ raw, Uri.literalPath? t = some raw ∧ raw.bytes = r.path.bytes ++
      if h.isDir r.path = true ∧ r.path ≠ pathOf [] then [Path.slash] else [] := by
  have hc := hr.canonicalize_eq
  obtain ⟨raw, hraw, hrr⟩ := Platform.exists_literalPath?_of_resolveUri hr.resolves
  have hown : raw = h.platform.ownUriPath r.path := by
    have hnone := hr.aliasPath_eq
    rw [hrr] at hnone hc ⊢
    have hencoding := (Platform.detect_eq_none_iff.mp hnone).1 rfl
    have hanswer : h.platform.realPath raw.collapse = .ok raw.collapse := hc
    unfold Platform.encodingAlias? at hencoding
    split at hencoding
    · assumption
    · rw [hanswer] at hencoding
      cases hreal : h.platform.realPath raw <;> rw [hreal] at hencoding <;> cases hencoding
  have hslash : r.path.endsInSlash = true ↔ r.path = pathOf [] := by
    have hcollapsed := (collapsed_of_resolve hr.resolves hr.aliasPath_eq).1
    constructor
    · intro hends
      rcases eq_or_ne r.path.segments [] with hnil | hne
      · rw [hcollapsed, hnil]
      · rw [hcollapsed, pathOf, Path.endsInSlash_ofSegments Path.isSegment_of_mem_segments hne]
          at hends
        cases hends
    · intro hroot
      rw [hroot]
      rfl
  have hdir : h.platform.isDir r.path = h.isDir r.path := rfl
  refine ⟨raw, hraw, ?_⟩
  rw [hown, Platform.ownUriPath, hdir]
  cases hends : r.path.endsInSlash with
  | true => simp [hslash.mp hends]
  | false =>
    have hne : r.path ≠ pathOf [] := fun hroot => by
      rw [hslash.mpr hroot] at hends
      cases hends
    cases h.isDir r.path <;> simp [hne]

/-- What is resolved without an alias has its real path: it is free of links and spelled by the
address, and nothing else that is resolved without an alias leads to the same place. -/
theorem canonicalize_eq_self_of_unflagged {given : Given} {r : Resolved}
    (hr : h.Unflagged given r) :
    h.canonicalize r.path = .ok r.path ∧
      (∃ names n, r.path = pathOf names ∧ (∀ s ∈ names, Name.IsProper s) ∧
        h.root.find? names = some n ∧ n.isLink = false ∧ h.stat r.path = .ok n) ∧
      (∀ t, given = .address t → ∃ raw, Uri.literalPath? t = some raw ∧
        raw.bytes = r.path.bytes ++
          if h.isDir r.path = true ∧ r.path ≠ pathOf [] then [Path.slash] else []) ∧
      ∀ given' r', h.Unflagged given' r' → h.SamePlace r.path r'.path → r'.path = r.path := by
  have habs : ∀ {given : Given} {r : Resolved}, h.Unflagged given r → r.path.isAbsolute = true := by
    intro given r hr
    rw [(collapsed_of_resolve hr.resolves hr.aliasPath_eq).1]
    rfl
  have hplace : ∀ {given : Given} {r : Resolved} {l : Located}, h.Unflagged given r →
      h.locate {} r.path = .ok l → r.path = pathOf l.names := by
    intro given r l hr hl
    exact (leadsTo_of_canonicalize (habs hr) hr.canonicalize_eq).unique
      (leadsTo_of_walks (walks_of_locate rfl (habs hr) hl) (Nat.le_refl linkLimit))
  refine ⟨hr.canonicalize_eq, ?_, ?_, ?_⟩
  · obtain ⟨l, hl, hstat⟩ := exists_locate_of_pathExists hr.found
    have hwalks := walks_of_locate rfl (habs hr) hl
    exact ⟨l.names, l.node, hplace hr hl,
      hwalks.isProper (by simp) Path.isSegment_of_mem_segments, hwalks.find?,
      hwalks.isLink_eq_false rfl rfl (.of_find? (Node.find?_nil h.root) rfl), hstat⟩
  · rintro t rfl
    exact hr.bytes_eq
  · rintro given' r' hr' ⟨l, m, hl, hm, hnames⟩
    rw [hplace hr hl, hplace hr' hm, hnames]

/-- A host with one directory, which a link leads to as well, for a working directory at the
root. -/
def shelfHost : Host where
  rootModified := .tick 0
  rootEntries :=
    [(Utf8.encode "my shelf".toList, .dir (.tick 0) []),
      (Utf8.encode "front".toList, .link (Path.ofText "my shelf".toList))]
  files := []
  clock := 1
  workingDir := []

/-- The directory has one path, whether it is given by its address or by a relative path. -/
theorem canonicalize_shelf :
    ∃ r s, shelfHost.Unflagged (.address "file:///my%20shelf/".toList) r ∧
      shelfHost.Unflagged (.path (Path.ofText "my shelf".toList)) s ∧
      shelfHost.canonicalize r.path = .ok r.path ∧ s.path = r.path := by
  have hreal : shelfHost.canonicalize (Path.ofText "/my shelf".toList) =
      .ok (Path.ofText "/my shelf".toList) := eq_ok_of_toOption (by decide +kernel)
  have hunflagged : ∀ given,
      (shelfHost.resolve given).toOption = some ⟨Path.ofText "/my shelf".toList, none⟩ →
        shelfHost.Unflagged given ⟨Path.ofText "/my shelf".toList, none⟩ := fun given hgiven =>
    { resolves := eq_ok_of_toOption hgiven
      aliasPath_eq := rfl
      found := by decide +kernel
      answered := fun herror => by
        rw [hreal] at herror
        cases herror }
  have haddress := hunflagged (.address "file:///my%20shelf/".toList) (by decide +kernel)
  have hpath := hunflagged (.path (Path.ofText "my shelf".toList)) (by decide +kernel)
  obtain ⟨l, hl, -⟩ := exists_locate_of_pathExists haddress.found
  obtain ⟨hself, -, -, hunique⟩ := canonicalize_eq_self_of_unflagged haddress
  exact ⟨_, _, haddress, hpath, hself, hunique _ _ hpath ⟨l, l, hl, hl, rfl⟩⟩

/-! ### A link to a place that is spelled too long -/

/-- The directories down to the place that the link of `chainHost` leads to. -/
def chainAbove : List Name := List.replicate 8 (List.replicate 250 0x64)

/-- The directories below that place. -/
def chainBelow : List Name := List.replicate 9 (List.replicate 250 0x65)

/-- A host with a long chain of directories and a link to a place in it. -/
def chainHost : Host where
  rootModified := .tick 0
  rootEntries :=
    (Utf8.encode "link".toList, .link (pathOf chainAbove)) :: nest (chainAbove ++ chainBelow)
  files := []
  clock := 1
  workingDir := []

/-- The path of the last directory over the link. -/
def overLink : Path := pathOf (Utf8.encode "link".toList :: chainBelow)

/-- The last directory can be looked at over the link, and no alias is found for the path over the
link although that is not where the directory really is. -/
theorem exists_unflagged_of_tooLong :
    chainHost.resolve (.path overLink) = .ok ⟨overLink, none⟩ ∧
      chainHost.pathExists overLink = true ∧
      chainHost.canonicalize overLink = .error .invalidFilename ∧
      ∃ l, chainHost.locate {} overLink = .ok l ∧ pathOf l.names ≠ overLink := by
  have hplace : ∃ l, chainHost.locate {} overLink = .ok l ∧ l.names = chainAbove ++ chainBelow :=
    exists_of_map_eq_ok (eq_ok_of_toOption (by decide +kernel))
  obtain ⟨l, hl, hnames⟩ := hplace
  refine ⟨eq_ok_of_toOption (by decide +kernel), ?_, ?_, l, hl, ?_⟩
  · rw [pathExists, stat, hl]
    rfl
  · have hnone : (chainHost.canonicalize overLink).toOption = none := by decide +kernel
    rcases canonicalize_eq_or_of_locate rfl hl with hreal | hlong
    · rw [hreal] at hnone
      cases hnone
    · exact hlong
  · have hlength : (pathOf (chainAbove ++ chainBelow)).bytes.length ≠ overLink.bytes.length := by
      decide +kernel
    rw [hnames]
    exact fun heq => hlength (congrArg (·.bytes.length) heq)

end Host

end ContentMounts
