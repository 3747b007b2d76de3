import ContentMounts.Archive.Root
import ContentMounts.Proofs.Host.RealPath
import ContentMounts.Proofs.Resource.Uri
import ContentMounts.Proofs.Url.File

/-!
# The root address of an archive

The root address of an archive is an address like any other, so it may be asked for the archive
that it leads into. It names its archive if it has itself as root address, wraps the archive's own
path and means no entry of it. That is so unless the path of the archive reads like something else
(`names_archive_iff`): a directory on the way to it whose name ends in `!` is taken for the archive,
and what looks like the root of a drive for a directory.
-/

namespace ContentMounts

namespace Archive

variable {h : Host}

/-- The mark `!`. -/
def bang : UInt8 := 0x21

/-- A part of a path is written with `!` at its end exactly if it ends in `!`. -/
lemma getLast?_component (s : Name) :
    (Percent.encodeBytes Url.componentSet s).getLast? = some '!' ↔ s.getLast? = some bang := by
  have hbyte : ∀ n < 256, (Percent.encodeBytes Url.componentSet [UInt8.ofNat n] ≠ [] ∧
      ((Percent.encodeBytes Url.componentSet [UInt8.ofNat n]).getLast? = some '!' ↔
        UInt8.ofNat n = bang)) := by
    decide +kernel
  rcases List.eq_nil_or_concat' s with rfl | ⟨init, b, rfl⟩
  · simp
  · obtain ⟨hne, hlast⟩ := hbyte b.toNat b.toNat_lt
    rw [UInt8.ofNat_toNat] at hne hlast
    rw [Percent.encodeBytes_append, List.getLast?_append,
      Option.or_of_isSome (by simpa using hne), hlast, List.getLast?_concat, Option.some.injEq]

/-! ## Finding the root -/

/-- The path of a file address is at the root. -/
lemma isAbsolute_of_toPath? {u : Url} {p : Path} (hp : u.toPath? = some p) :
    p.isAbsolute = true := by
  unfold Url.toPath? at hp
  split at hp
  · split at hp
    · next rest _ =>
      obtain ⟨piece, pieces, hsplit⟩ := List.exists_cons_of_ne_nil (List.splitOn_ne_nil '/' rest)
      rw [hsplit] at hp
      cases hp
      rw [List.map_cons, List.flatten_cons, List.cons_append]
      split <;> rfl
    · cases hp
  · cases hp

/-- The root of an archive is made from the real path of the file that an address wraps. -/
lemma root_eq_ok_iff {u r : Url} {path : Path} :
    root h u = .ok (r, path) ↔
      ∃ c p, Uri.container? u = some c ∧ c.scheme = "file".toList ∧ c.toPath? = some p ∧
        h.canonicalize p = .ok path ∧ rootOf u.scheme path = .ok r := by
  constructor
  · intro hroot
    unfold root at hroot
    simp only [bind, Except.bind, throw, throwThe, MonadExceptOf.throw, pure, Except.pure] at hroot
    cases hc : Uri.container? u with
    | none =>
      rw [hc] at hroot
      cases hroot
    | some c =>
      rw [hc] at hroot
      dsimp only at hroot
      by_cases hfile : c.scheme = "file".toList
      · rw [if_pos hfile] at hroot
        cases hp : c.toPath? with
        | none =>
          rw [hp] at hroot
          cases hroot
        | some p =>
          rw [hp] at hroot
          dsimp only at hroot
          cases hreal : h.canonicalize p with
          | error e =>
            rw [hreal] at hroot
            cases hroot
          | ok real =>
            rw [hreal] at hroot
            dsimp only [Except.mapError] at hroot
            cases hof : rootOf u.scheme real with
            | error e =>
              rw [hof] at hroot
              cases hroot
            | ok address =>
              rw [hof] at hroot
              cases hroot
              exact ⟨c, p, rfl, hfile, hp, hreal, hof⟩
      · rw [if_neg hfile] at hroot
        cases hroot
  · rintro ⟨c, p, hc, hfile, hp, hreal, hof⟩
    unfold root
    simp only [hc, hfile, if_true, hp, bind, Except.bind, pure, Except.pure, hreal,
      Except.mapError, hof]

/-- The body of the root address of an archive: the address of its file and the separator. -/
def rootBody (names : List Name) : Text :=
  (Url.fileAddress (Url.writtenNames names)).text ++ Uri.separator

/-- The root address of the archive at a path. -/
def rootAddress (scheme : Text) (names : List Name) : Url where
  scheme := scheme
  authority := none
  path := rootBody names
  query := none
  fragment := none

lemma text_rootAddress (scheme : Text) (names : List Name) :
    (rootAddress scheme names).text = scheme ++ ':' :: rootBody names ∧
      (rootAddress scheme names).body = rootBody names := by
  have hfront : ['/', '/'].isPrefixOf (rootBody names) = false := by
    rw [rootBody, Url.text_fileAddress]
    rfl
  have hbody : (rootAddress scheme names).body = rootBody names := by
    simp [Url.body, Url.front, Url.back, rootAddress, hfront]
  exact ⟨by rw [Url.text, hbody]; rfl, hbody⟩

section

variable {scheme : Text} {names : List Name} (hscheme : Url.IsScheme scheme)
  (hkind : Url.schemeKind scheme = .other) (hnames : ∀ s ∈ names, Name.IsProper s)

include hnames

lemma stands_rootBody : Percent.Stands Url.pathSet (rootBody names) := by
  have hjoined := Url.stands_joinSegments
    fun piece hpiece => (Url.isWritten_of_mem_writtenNames hnames piece hpiece).stands
  have hfile : Percent.Stands Url.pathSet "file://".toList := by decide
  have hsep : Percent.Stands Url.pathSet Uri.separator := by decide
  have hbody : rootBody names = "file://".toList ++ Url.joinSegments (Url.writtenNames names) ++
      Uri.separator := by
    rw [rootBody, Url.text_fileAddress]
    rfl
  rw [hbody]
  exact (hfile.append hjoined).append hsep

/-- A mark stands in the address of a file exactly if a directory on the way to the file has a name
that ends in `!`. -/
lemma infix_text_iff :
    ['!', '/'] <:+: (Url.fileAddress (Url.writtenNames names)).text ↔
      ∃ s ∈ names.dropLast, s.getLast? = some bang := by
  have htext : (Url.fileAddress (Url.writtenNames names)).text =
      "file:///".toList ++ List.intercalate ['/'] (Url.writtenNames names) := by
    rw [Url.text_fileAddress]
    rfl
  have hslash : ∀ piece ∈ Url.writtenNames names, '/' ∉ piece := by
    intro piece hpiece hin
    have hfalse := (Url.isWritten_of_mem_writtenNames hnames piece hpiece).not_slash '/' hin
    cases hfalse
  rw [htext, infix_append_of_notMem (by decide), infix_intercalate_iff (by decide) hslash,
    Url.writtenNames, ← List.map_dropLast]
  simp only [List.mem_map, exists_exists_and_eq_and, getLast?_component]

include hscheme hkind

lemma rootOf_pathOf : rootOf scheme (Host.pathOf names) = .ok (rootAddress scheme names) := by
  have htext : scheme ++ ':' :: (Url.fileAddress (Url.writtenNames names)).text ++ Uri.separator =
      scheme ++ ':' :: rootBody names := by
    rw [rootBody, List.append_assoc, List.cons_append]
  have hhead : (rootBody names).head? ≠ some '/' := by
    rw [rootBody, Url.text_fileAddress]
    exact fun heq => absurd (Option.some.inj heq) (by decide)
  unfold rootOf
  rw [Host.pathOf, Url.ofPath?_ofSegments hnames]
  dsimp only
  rw [htext, Url.parse_of_opaque hscheme hkind (stands_rootBody hnames) hhead]
  rfl

end

/-! ## What the root address says -/

/-- What starts with a slash has no scheme. -/
lemma parse_slash (t : Text) : Url.parse ('/' :: t) = .error .relative := by
  have htrim : Text.trimWhile (· ≤ ' ') ('/' :: t) = '/' :: Text.dropEndWhile (· ≤ ' ') t := by
    rw [Text.trimWhile, List.dropWhile_cons_of_neg (by decide)]
    exact Text.dropEndWhile_append_cons (by decide) [] t
  have hsplit : ∀ t : Text, Url.splitScheme? ('/' :: t) = none := by
    intro t
    have hhead : Url.withoutBreaks (('/' :: t).takeWhile (· != ':')) =
        '/' :: Url.withoutBreaks (t.takeWhile (· != ':')) := by
      rw [List.takeWhile_cons_of_pos (by decide), Url.withoutBreaks,
        List.filter_cons_of_pos (by decide), Url.withoutBreaks]
    unfold Url.splitScheme?
    rw [hhead]
    split
    · rfl
    · rfl
  rw [Url.parse, htrim, hsplit]

/-- Only an address whose scheme has no rules of its own wraps another one. -/
lemma schemeKind_of_container? {input : Text} {u c : Url} (hu : Url.parse input = .ok u)
    (hc : Uri.container? u = some c) : Url.schemeKind u.scheme = .other := by
  obtain ⟨-, rest, hrest⟩ := Url.exists_readRest_of_parse hu
  obtain ⟨⟨authority, path⟩, hplace, hparts⟩ := exists_of_map_eq_ok hrest
  have hauthority : u.authority = authority := by rw [← hparts]
  by_contra hother
  have hsome : ∃ a, authority = some a := by
    unfold Url.readPlace at hplace
    split at hplace
    · obtain ⟨⟨a, p⟩, -, heq⟩ := exists_of_map_eq_ok hplace
      exact ⟨a, (Prod.ext_iff.mp heq).1.symm⟩
    · have hspecial : (Url.schemeKind u.scheme).isSpecial = true := by
        cases hkind : Url.schemeKind u.scheme with
        | file => rfl
        | network port => rfl
        | other => exact absurd hkind hother
      unfold Url.readGeneric at hplace
      rw [if_pos hspecial] at hplace
      obtain ⟨⟨a, rest⟩, -, heq⟩ := exists_of_bind_eq_ok hplace
      exact ⟨a, (Prod.ext_iff.mp (Except.ok.inj heq)).1.symm⟩
  obtain ⟨a, ha⟩ := hsome
  have hbody : ∃ t, u.body = '/' :: t :=
    ⟨'/' :: (a ++ u.path ++ u.back), by rw [Url.body, Url.front, hauthority, ha]; rfl⟩
  obtain ⟨t, ht⟩ := hbody
  have hbefore : ∃ t', Uri.beforeSeparator ('/' :: t) = '/' :: t' := by
    have hskip : Text.cut? Uri.separator ('/' :: t) =
        (Text.cut? Uri.separator t).map (Prod.map ('/' :: ·) id) := by
      rw [Text.cut?, if_neg (by simp [Uri.separator])]
      rfl
    unfold Uri.beforeSeparator
    rw [hskip]
    cases Text.cut? Uri.separator t with
    | none => exact ⟨t, rfl⟩
    | some parts => exact ⟨parts.1, rfl⟩
  obtain ⟨t', ht'⟩ := hbefore
  rw [Uri.container?, ht, ht', parse_slash] at hc
  cases hc

section

variable {scheme : Text} {names : List Name} (hscheme : Url.IsScheme scheme)
  (hnames : ∀ s ∈ names, Name.IsProper s)

include hnames

/-- The root address wraps the address of its archive unless that one can be cut. -/
lemma container?_rootAddress (hbang : ¬∃ s ∈ names.dropLast, s.getLast? = some bang) :
    Uri.container? (rootAddress scheme names) =
      some (Url.fileAddress (Url.writtenNames names)) := by
  have hcut : Text.cut? ['!', '/'] ((Url.fileAddress (Url.writtenNames names)).text ++ ['!', '/']) =
      some ((Url.fileAddress (Url.writtenNames names)).text, []) :=
    cut?_of_not_mark (by decide) fun hin => hbang ((infix_text_iff hnames).mp hin)
  have hparse := Url.parse_fileAddress (Url.isWritten_of_mem_writtenNames hnames)
  rw [Uri.container?, (text_rootAddress scheme names).2, Uri.beforeSeparator, rootBody]
  rw [Uri.separator, hcut]
  dsimp only
  rw [hparse]
  rfl

include hscheme

/-- The root address means no entry exactly if the address of its archive cannot be cut. -/
lemma containerEntry_rootAddress_eq_nil_iff :
    Uri.containerEntry (rootAddress scheme names) = [] ↔
      ¬∃ s ∈ names.dropLast, s.getLast? = some bang := by
  have hnot : '!' ∉ scheme ++ [':'] := by
    rw [List.mem_append, not_or]
    exact ⟨fun hin => (hscheme.schemeChar hin).ne_bang rfl, by decide⟩
  have htext : (rootAddress scheme names).text =
      (scheme ++ [':'] ++ (Url.fileAddress (Url.writtenNames names)).text) ++ ['!', '/'] := by
    rw [(text_rootAddress scheme names).1, rootBody, Uri.separator]
    simp
  have hinfix : ['!', '/'] <:+: scheme ++ [':'] ++ (Url.fileAddress (Url.writtenNames names)).text ↔
      ∃ s ∈ names.dropLast, s.getLast? = some bang := by
    rw [infix_append_of_notMem hnot, infix_text_iff hnames]
  unfold Uri.containerEntry
  rw [htext, Uri.separator, ← hinfix]
  constructor
  · intro hnil hin
    obtain ⟨before, behind, hsuffix, hcut⟩ := exists_cut?_of_mark hin ['!', '/']
    rw [hcut] at hnil
    have hkeep : ∀ c ∈ behind ++ ['!', '/'], (!Url.endsPath c) = true := by
      have hbody := stands_rootBody hnames
      intro c hc
      rw [Bool.not_eq_true']
      rcases List.mem_append.mp hc with hbehind | hsep
      · rcases List.mem_append.mp (hsuffix.subset hbehind) with hfront | hfile
        · rcases List.mem_append.mp hfront with hin | hcolon
          · exact (hscheme.schemeChar hin).not_end
          · rw [List.mem_singleton.mp hcolon]
            rfl
        · exact (Url.pathChar_of_isPlain (hbody c (List.mem_append_left _ hfile))).not_end
      · exact (Url.pathChar_of_isPlain (hbody c (List.mem_append_right _ hsep))).not_end
    refine Utf8.decodeLossy_ne_nil (Percent.decode_ne_nil ?_) hnil
    rw [List.takeWhile_eq_self_iff.mpr hkeep]
    simp
  · intro hnot
    rw [cut?_of_not_mark (by decide) hnot]
    rfl

end

/-! ## Naming the archive -/

/-- An address names the archive at a path under its own root address: it has itself as root
address, wraps the path, and means no entry. -/
structure Names (h : Host) (r : Url) (path : Path) : Prop where
  root_eq : root h r = .ok (r, path)
  backing : ∃ p, Uri.backingFile? r = some p ∧ p.sameComponents path = true
  entry_eq : Uri.containerEntry r = []

/-- Whether a directory on the way to a path has a name that ends in `!`. -/
def CrossesBang (path : Path) : Prop := ∃ s ∈ path.segments.dropLast, s.getLast? = some bang

/-- The root address of an archive names it, unless a directory on the way to the archive has a name
that ends in `!`, or the archive is no directory and its path ends like the root of a drive. -/
theorem names_archive_iff (hzero : h.HoldsNoZero) {input : Text} {u r : Url} {path : Path}
    (hu : Url.parse input = .ok u) (hroot : root h u = .ok (r, path)) :
    Names h r path ↔ ¬CrossesBang path ∧
      (Url.endsInDrive path.bytes = true → (h.root.find? path.segments).any Node.isDir = true) := by
  obtain ⟨c, p, hc, -, hp, hreal, hof⟩ := root_eq_ok_iff.mp hroot
  have hscheme := (Url.exists_readRest_of_parse hu).1
  have hkind := schemeKind_of_container? hu hc
  have habs := isAbsolute_of_toPath? hp
  obtain ⟨l, rfl, hnames, -, -, -, -⟩ := Host.exists_direct_of_canonicalize hzero habs hreal
  obtain ⟨hself, hslashed⟩ := Host.canonicalize_of_canonicalize hzero habs hreal
  have hsegments : (Host.pathOf l.names).segments = l.names :=
    Path.segments_ofSegments true fun s hs => (hnames s hs).toIsSegment
  rw [rootOf_pathOf hscheme hkind hnames] at hof
  obtain rfl := Except.ok.inj hof
  have hentry := containerEntry_rootAddress_eq_nil_iff hscheme hnames
  have hpath : (Url.fileAddress (Url.writtenNames l.names)).toPath? = some
      (if Url.endsInDrive (Host.pathOf l.names).bytes
        then ⟨(Host.pathOf l.names).bytes ++ [Path.slash]⟩ else Host.pathOf l.names) :=
    Url.toPath?_fileAddress hnames
  rw [CrossesBang, hsegments]
  constructor
  · intro hagain
    have hbang := hentry.mp hagain.entry_eq
    refine ⟨hbang, fun hdrive => ?_⟩
    obtain ⟨c', p', hc', -, hp', hreal', -⟩ := root_eq_ok_iff.mp hagain.root_eq
    rw [container?_rootAddress hnames hbang] at hc'
    obtain rfl := Option.some.inj hc'
    rw [hpath, if_pos hdrive] at hp'
    obtain rfl := Option.some.inj hp'
    obtain ⟨l', hl', hnames', -, hfound, -, hdir⟩ :=
      Host.exists_direct_of_canonicalize hzero rfl hreal'
    have hplace : l.names = l'.names := by
      rw [← hsegments, hl', Host.pathOf,
        Path.segments_ofSegments true fun s hs => (hnames' s hs).toIsSegment]
    have hends : (⟨(Host.pathOf l.names).bytes ++ [Path.slash]⟩ : Path).endsInSlash = true := by
      rw [Path.endsInSlash, List.getLast?_concat]
      rfl
    rw [hplace, hfound, Option.any_some]
    exact hdir hends
  · rintro ⟨hbang, hdrive⟩
    have hcontainer : Uri.container? (rootAddress u.scheme l.names) = some _ :=
      container?_rootAddress hnames hbang
    have hbacking : Uri.backingFile? (rootAddress u.scheme l.names) =
        (Url.fileAddress (Url.writtenNames l.names)).toPath? := by
      rw [Uri.backingFile?, hcontainer]
      rfl
    rw [hsegments] at hslashed
    refine ⟨root_eq_ok_iff.mpr ⟨_, _, hcontainer, rfl, hpath, ?_,
      rootOf_pathOf hscheme hkind hnames⟩, ⟨_, hbacking.trans hpath, ?_⟩, hentry.mpr hbang⟩
    · split
      · next hends => exact hslashed (hdrive hends)
      · exact hself
    · split
      · refine Path.sameComponents_of_segments rfl ?_
        rw [Path.segments_append_slash]
        exact List.append_nil _
      · exact Path.sameComponents_of_segments rfl rfl

/-- A host with an archive in each of two directories. -/
def shelvesHost : Host where
  rootModified := .tick 0
  rootEntries :=
    [(Utf8.encode "my files".toList, .dir (.tick 0) [(Utf8.encode "b!".toList, .file 0)]),
      (Utf8.encode "a!".toList, .dir (.tick 0) [(Utf8.encode "x.zip".toList, .file 1)])]
  files := []
  clock := 1
  workingDir := []

lemma holdsNoZero_shelvesHost : shelvesHost.HoldsNoZero := by
  intro place target hlink
  exfalso
  have hfile : ∀ (id : FileId) rest, (Node.file id).find? rest ≠ some (.link target) := by
    intro id rest
    cases rest with
    | nil => simp [Node.find?]
    | cons s rest => simp [Node.find?, Node.child?, Node.entries]
  have hshelf : ∀ name id rest,
      (Node.dir (.tick 0) [(name, .file id)]).find? rest ≠ some (.link target) := by
    intro name id rest
    cases rest with
    | nil => simp [Node.find?]
    | cons s rest =>
      rw [Node.find?, Node.child?, Node.entries, List.lookup_cons]
      split
      · exact hfile id rest
      · simp
  cases place with
  | nil => cases hlink
  | cons s rest =>
    rw [Host.root, shelvesHost, Node.find?, Node.child?, Node.entries, List.lookup_cons,
      List.lookup_cons] at hlink
    split at hlink
    · exact hshelf _ _ rest hlink
    · split at hlink
      · exact hshelf _ _ rest hlink
      · cases hlink

/-- An archive whose own name ends in `!`, and which lies in a directory with a blank in its name,
is named by its root address. -/
theorem names_archive_of_shelf :
    ∃ u r path, Url.parse "jar:file:///my%20files/b!!/x".toList = .ok u ∧
      r.text = "jar:file:///my%20files/b!!/".toList ∧ root shelvesHost u = .ok (r, path) ∧
      Names shelvesHost r path := by
  have hu : Url.parse "jar:file:///my%20files/b!!/x".toList =
      .ok ⟨"jar".toList, none, "file:///my%20files/b!!/x".toList, none, none⟩ :=
    eq_ok_of_toOption (by decide +kernel)
  have hroot :
      root shelvesHost ⟨"jar".toList, none, "file:///my%20files/b!!/x".toList, none, none⟩ =
      .ok (⟨"jar".toList, none, "file:///my%20files/b!!/".toList, none, none⟩,
        Path.ofText "/my files/b!".toList) :=
    eq_ok_of_toOption (by decide +kernel)
  have hcross : ¬CrossesBang (Path.ofText "/my files/b!".toList) := by
    unfold CrossesBang
    decide +kernel
  exact ⟨_, _, _, hu, by decide +kernel, hroot,
    (names_archive_iff holdsNoZero_shelvesHost hu hroot).mpr
      ⟨hcross, fun hdrive => absurd hdrive (by decide +kernel)⟩⟩

/-- The root address of an archive in a directory whose name ends in `!` leads to the directory in
place of the archive: it has no root address of its own, wraps a file that is not there, and means
an entry. -/
theorem not_names_archive_of_bang :
    ∃ u r path, Url.parse "jar:file:///a%21/x.zip!/".toList = .ok u ∧
      root shelvesHost u = .ok (r, path) ∧ r.text = "jar:file:///a!/x.zip!/".toList ∧
      root shelvesHost r ≠ .ok (r, path) ∧
      Uri.backingFile? r = some (Path.ofText "/a".toList) ∧ path = Path.ofText "/a!/x.zip".toList ∧
      Uri.containerEntry r = "x.zip!/".toList := by
  refine ⟨⟨"jar".toList, none, "file:///a%21/x.zip!/".toList, none, none⟩,
    ⟨"jar".toList, none, "file:///a!/x.zip!/".toList, none, none⟩,
    Path.ofText "/a!/x.zip".toList, eq_ok_of_toOption (by decide +kernel),
    eq_ok_of_toOption (by decide +kernel), by decide +kernel, fun hagain => ?_, by decide +kernel,
    rfl, by decide +kernel⟩
  have hnone : (root shelvesHost
      ⟨"jar".toList, none, "file:///a!/x.zip!/".toList, none, none⟩).toOption = none := by
    decide +kernel
  rw [hagain] at hnone
  cases hnone

end Archive

end ContentMounts
