import ContentMounts.Proofs.Resource.File
import ContentMounts.Proofs.Resource.Uri

/-!
# Paths below a resource

What a client asks for below a resource is written behind the address of the resource, name by name.
The names are escaped, so each of them comes back as one segment of the path (`segments_addition`),
and a slash always stands between them and what the address spells, so that neither changes the
other (`Uri.Places.eq_below`). The segments of the resource that is found are therefore those of the
resource above it and the names that were asked for (`FileResource.segments_resolve`).

That is so as long as the path is the end of the address. Behind a query or a fragment nothing
belongs to the path any more, and all names are lost.
-/

namespace ContentMounts

namespace Path

/-- The segments of a text and of what a slash sets apart from it. -/
lemma segments_spelled_append {t s : Text} (h : s = [] ∨ s.head? = some '/') :
    (spelled (t ++ s)).segments = (spelled t).segments ++ (spelled s).segments := by
  rcases h with rfl | hslash
  · rw [List.append_nil, segments_spelled_nil, List.append_nil]
  · obtain ⟨rest, rfl⟩ := List.head?_eq_some_iff.mp hslash
    rw [segments_spelled_append_slash, segments_spelled_slash]

end Path

/-! ## What is written of a path -/

/-- What is written for a path behind the address of a resource. -/
def addition (sub : Text) : Text :=
  (namesOf sub).flatMap (fun s => '/' :: Percent.encodeSegment s)
    ++ if sub.getLast? = some '/' then ['/'] else []

lemma below_eq (literal sub : Text) :
    FileResource.below literal sub = Text.dropEndWhile (· == '/') literal ++ addition sub :=
  List.append_assoc ..

/-- Whether a text is set apart from what it is written behind: by a slash, and by one only. -/
structure IsApart (t : Text) : Prop where
  slash : t = [] ∨ t.head? = some '/'
  single : ¬['/', '/'] <+: t

lemma isApart_addition (sub : Text) : IsApart (addition sub) := by
  have hnames : ∀ name ∈ namesOf sub, name ≠ [] ∧ '/' ∉ name := fun _ => ne_nil_of_mem_namesOf
  unfold addition
  generalize namesOf sub = names at hnames
  cases names with
  | nil => constructor <;> split <;> simp
  | cons name names =>
    obtain ⟨hne, hslash⟩ := hnames name List.mem_cons_self
    obtain ⟨c, rest, hc⟩ := List.exists_cons_of_ne_nil (Percent.encodeSegment_ne_nil hne)
    have hother := Percent.slash_notMem_encodeSegment hslash
    rw [hc, List.mem_cons, not_or] at hother
    refine ⟨.inr (by simp), ?_⟩
    simp [List.flatMap_cons, hc, hother.1]

/-- Nothing of what is written for a path ends it. -/
lemma stands_addition (sub : Text) : Percent.Stands Url.pathSet (addition sub) := by
  have hslash : Percent.Stands Url.pathSet ['/'] := by decide
  refine Percent.Stands.append (fun c hc => ?_) ?_
  · obtain ⟨name, -, hin⟩ := List.mem_flatMap.mp hc
    rcases List.mem_cons.mp hin with rfl | hin
    · exact hslash _ (by simp)
    · exact Percent.stands_encodeSegment name c hin
  · split
    · exact hslash
    · simp [Percent.Stands]

/-- A name without a slash is a segment. -/
lemma isSegment_encode {name : Text} (hne : name ≠ []) (hslash : '/' ∉ name) :
    Name.IsSegment (Utf8.encode name) := by
  refine ⟨fun hnil => hne (Utf8.encode_eq_nil_iff.mp hnil), fun hin => hslash ?_⟩
  obtain ⟨c, hc, hbyte⟩ := List.mem_flatMap.mp hin
  have hcode := Utf8.toNat_eq_of_mem_utf8EncodeChar hbyte (by decide)
  rw [← Char.ofNat_toNat c, hcode] at hc
  exact hc

/-- What is written for a path spells its names, each as one segment. -/
lemma segments_addition (sub : Text) :
    (Path.spelled (addition sub)).segments = (namesOf sub).map Utf8.encode := by
  have hnames : ∀ name ∈ namesOf sub, name ≠ [] ∧ '/' ∉ name := fun _ => ne_nil_of_mem_namesOf
  unfold addition
  generalize namesOf sub = names at hnames
  induction names with
  | nil => split <;> rfl
  | cons name names ih =>
    obtain ⟨hne, hslash⟩ := hnames name List.mem_cons_self
    have hsingle : (Path.spelled (Percent.encodeSegment name)).segments = [Utf8.encode name] := by
      rw [Path.spelled, Percent.decode_encodeSegment]
      exact Path.segments_of_isSegment (isSegment_encode hne hslash)
    have hbehind : ∀ end' : Text, end' = [] ∨ end' = ['/'] →
        names.flatMap (fun s => '/' :: Percent.encodeSegment s) ++ end' = [] ∨
          (names.flatMap (fun s => '/' :: Percent.encodeSegment s) ++ end').head? = some '/' := by
      rintro end' (rfl | rfl) <;> cases names <;> simp
    rw [List.flatMap_cons, List.append_assoc, List.cons_append, Path.segments_spelled_slash,
      Path.segments_spelled_append (hbehind _ (by split <;> simp)), hsingle,
      ih fun other hother => hnames other (List.mem_cons_of_mem name hother), List.map_cons]
    rfl

namespace Uri

/-! ## Places of paths -/

/-- What is left of an address behind the name of this host, less the slashes at its end. -/
lemma IsHere.dropEndWhile_append {host path : Text} (h : IsHere host)
    (hne : host ++ Text.dropEndWhile (· == '/') path ≠ []) :
    Text.dropEndWhile (· == '/') ('/' :: '/' :: (host ++ path)) =
      '/' :: '/' :: (host ++ Text.dropEndWhile (· == '/') path) := by
  have hhost : Text.dropEndWhile (· == '/') host = host := by
    apply Text.dropEndWhile_of_getLast?
    rw [Option.any_eq_false]
    intro c hc
    simpa using fun heq : c = '/' => h.slash_notMem (heq ▸ List.mem_of_getLast? hc)
  have hinner : Text.dropEndWhile (· == '/') (host ++ path) =
      host ++ Text.dropEndWhile (· == '/') path := by
    by_cases hpath : Text.dropEndWhile (· == '/') path = []
    · rw [Text.dropEndWhile_append_of_nil hpath, hhost, hpath, List.append_nil]
    · exact Text.dropEndWhile_append hpath host
  have hfront := Text.dropEndWhile_append (p := (· == '/')) (hinner ▸ hne) ['/', '/']
  rw [hinner] at hfront
  exact hfront

section

variable {place path a : Text} (ha : IsApart a)

include ha

/-- What is left of a path and what is set apart from it start with a slash. -/
lemma head?_append (hhead : path.head? = some '/')
    (hne : Text.dropEndWhile (· == '/') path ++ a ≠ []) :
    (Text.dropEndWhile (· == '/') path ++ a).head? = some '/' := by
  have hprefix := Text.dropEndWhile_prefix_self (· == '/') path
  obtain ⟨rest, rfl⟩ := List.head?_eq_some_iff.mp hhead
  generalize Text.dropEndWhile (· == '/') ('/' :: rest) = kept at hprefix hne
  match kept with
  | [] => exact ha.slash.resolve_left hne
  | c :: kept =>
    obtain ⟨rfl, -⟩ := List.cons_prefix_cons.mp hprefix
    rfl

/-- A path by itself stays by itself if one slash sets apart what is written behind it. -/
lemma not_doubleSlash_append (hbare : ¬['/', '/'] <+: path) :
    ¬['/', '/'] <+: Text.dropEndWhile (· == '/') path ++ a := by
  have hprefix := Text.dropEndWhile_prefix_self (· == '/') path
  have hend := Text.getLast?_dropEndWhile (· == '/') path
  generalize Text.dropEndWhile (· == '/') path = kept at hprefix hend
  intro hdouble
  match kept with
  | [] => exact ha.single hdouble
  | [c] =>
    obtain ⟨rfl, -⟩ := List.cons_prefix_cons.mp hdouble
    cases hend
  | c :: d :: rest =>
    obtain ⟨rfl, hrest⟩ := List.cons_prefix_cons.mp hdouble
    obtain ⟨rfl, -⟩ := List.cons_prefix_cons.mp hrest
    exact hbare ((List.prefix_append ['/', '/'] rest).trans hprefix)

/-- A path that is written behind another one stands where that one stood. -/
lemma Places.below (h : Places place path)
    (hne : Text.dropEndWhile (· == '/') path ++ a ≠ []) :
    Places (Text.dropEndWhile (· == '/') place ++ a)
      (Text.dropEndWhile (· == '/') path ++ a) := by
  rcases h with ⟨hhead, hbare⟩ | ⟨hhere, hhead⟩
  · exact .bare (head?_append ha hhead hne) (not_doubleSlash_append ha hbare)
  · next host =>
    by_cases hnil : host ++ Text.dropEndWhile (· == '/') path = []
    · obtain ⟨rfl, hpath⟩ := List.append_eq_nil_iff.mp hnil
      have hplace : Text.dropEndWhile (· == '/') ('/' :: '/' :: ([] ++ path)) = [] :=
        Text.dropEndWhile_append_of_nil hpath ['/', '/']
      rw [hpath, List.nil_append] at hne
      rw [hplace, hpath, List.nil_append]
      exact .bare (ha.slash.resolve_left hne) ha.single
    · rw [hhere.dropEndWhile_append hnil, List.cons_append, List.cons_append, List.append_assoc]
      exact .hosted hhere (head?_append ha hhead hne)

/-- What stands in the place of an address behind which a path is written is the path that stood
there, with that path behind it. -/
theorem Places.eq_below (h : Places place path) {child : Text}
    (hchild : Places (Text.dropEndWhile (· == '/') place ++ a) child) :
    child = Text.dropEndWhile (· == '/') path ++ a := by
  by_cases hne : Text.dropEndWhile (· == '/') path ++ a = []
  · exfalso
    obtain ⟨hpath, rfl⟩ := List.append_eq_nil_iff.mp hne
    rw [List.append_nil] at hchild
    rcases h with ⟨hhead, -⟩ | ⟨hhere, -⟩
    · exact not_places_nil (hpath ▸ hchild)
    · next host =>
      by_cases hhost : host = []
      · have hplace : Text.dropEndWhile (· == '/') ('/' :: '/' :: (host ++ path)) = [] := by
          rw [hhost]
          exact Text.dropEndWhile_append_of_nil hpath ['/', '/']
        exact not_places_nil (hplace ▸ hchild)
      · rw [hhere.dropEndWhile_append (by rwa [hpath, List.append_nil]), hpath,
          List.append_nil] at hchild
        obtain ⟨host', -, hsplit⟩ := hchild.exists_host
        obtain ⟨rest, rfl⟩ := List.head?_eq_some_iff.mp hchild.head?
        exact hhere.slash_notMem (hsplit ▸ by simp)
  · exact hchild.unique (h.below ha hne)

end

/-! ## Addresses with a path behind them -/

section

variable {literal : Text} {raw : Path} (hraw : literalPath? literal = some raw) (sub : Text)

include hraw

/-- A path that is written behind a path is spelled behind it. -/
theorem segments_below (htail : hasTail literal = false) {child : Path}
    (hchild : literalPath? (FileResource.below literal sub) = some child) :
    child.segments = raw.segments ++ (namesOf sub).map Utf8.encode := by
  obtain ⟨scheme, rest, path, rfl, hcolon, hfile, hplaces, rfl⟩ :=
    literalPath?_eq_some_iff.mp hraw
  rw [hasTail_append_cons hfile] at htail
  have hbehind : (Text.dropEndWhile (· == '/') rest ++ addition sub).any Url.endsPath = false := by
    rw [List.any_eq_false] at htail ⊢
    intro c hc
    rcases List.mem_append.mp hc with hkept | hadded
    · exact htail c (Text.mem_of_mem_dropEndWhile hkept)
    · simp [(Url.pathChar_of_isPlain (stands_addition sub c hadded)).not_end]
  rw [placeOf_eq_self htail] at hplaces
  rw [below_eq, Text.dropEndWhile_append_cons (by decide), List.append_assoc, List.cons_append,
    literalPath?_append_cons hcolon hfile, placeOf_eq_self hbehind] at hchild
  obtain ⟨below, hbelow, rfl⟩ := hchild
  rw [hplaces.eq_below (isApart_addition sub) hbelow,
    Path.segments_spelled_append (isApart_addition sub).slash, Path.segments_spelled_dropEndWhile,
    segments_addition]

/-- Behind a query or a fragment nothing is added to the path. -/
theorem literalPath?_below_of_tail (htail : hasTail literal = true) :
    literalPath? (FileResource.below literal sub) = some raw := by
  obtain ⟨scheme, rest, path, rfl, hcolon, hfile, hplaces, rfl⟩ :=
    literalPath?_eq_some_iff.mp hraw
  rw [hasTail_append_cons hfile] at htail
  obtain ⟨place, d, behind, rfl, hplace, hd⟩ := exists_tail htail
  have hslash : (d == '/') = false := by
    rw [beq_eq_false_iff_ne]
    rintro rfl
    cases hd
  rw [placeOf_append_cons hplace hd] at hplaces
  rw [below_eq, ← List.cons_append, ← List.append_assoc,
    Text.dropEndWhile_append_cons (p := (· == '/')) hslash, List.append_assoc, List.append_assoc,
    List.cons_append, List.cons_append, literalPath?_append_cons hcolon hfile,
    placeOf_append_cons hplace hd]
  exact ⟨path, hplaces, rfl⟩

end

end Uri

namespace FileResource

/-! ## Resources and what is named below them -/

variable {plat : Platform} {workingDir : Path}

/-- The resources of a platform, by how they are made. -/
inductive Constructed (plat : Platform) (workingDir : Path) : FileResource → Prop
  /-- From an address. -/
  | new {input : Text} {r : FileResource} :
      ofUri plat input = .ok r → Constructed plat workingDir r
  /-- From a path. -/
  | fromPath {raw : Path} {r : FileResource} :
      ofPath plat workingDir raw = .ok r → Constructed plat workingDir r
  /-- From what a path names below a resource. -/
  | resolve {base r : FileResource} {sub : Text} :
      Constructed plat workingDir base → base.resolve plat sub = .ok r →
      Constructed plat workingDir r

/-- The address that is written from names spells them, and nothing stands behind them. -/
lemma exists_literalPath?_fileAddress {names : List Name} (h : ∀ s ∈ names, Name.IsSegment s) :
    Uri.hasTail (Url.fileAddress (Url.writtenNames names)).text = false ∧ ∃ spelled,
      Uri.literalPath? (Url.fileAddress (Url.writtenNames names)).text = some spelled ∧
        spelled.segments = names := by
  have hstands : Percent.Stands Url.pathSet
      ('/' :: '/' :: Url.joinSegments (Url.writtenNames names)) := by
    rw [Percent.stands_cons, Percent.stands_cons]
    refine ⟨Url.isPlain_slash, Url.isPlain_slash, Url.stands_joinSegments fun piece hpiece => ?_⟩
    obtain ⟨s, -, rfl⟩ := List.mem_map.mp hpiece
    exact Url.stands_component s
  have hsegments : (Path.spelled (Url.joinSegments (Url.writtenNames names))).segments =
      names := by
    have hsingle : ∀ s ∈ names,
        (Path.spelled (Percent.encodeBytes Url.componentSet s)).segments = [s] := by
      intro s hs
      rw [Path.spelled, Url.decode_component]
      exact Path.segments_of_isSegment (h s hs)
    rw [Url.joinSegments, Path.segments_spelled_slash, Path.segments_spelled_intercalate,
      Url.writtenNames, List.flatMap_map, List.flatMap_def, List.map_congr_left hsingle,
      ← List.flatMap_def, List.flatMap_singleton']
  rw [Url.text_fileAddress]
  constructor
  · have hplace : ('/' :: '/' :: Url.joinSegments (Url.writtenNames names)).any Url.endsPath =
        false := by
      rw [List.any_eq_false]
      intro c hc
      simp [(Url.pathChar_of_isPlain (hstands c hc)).not_end]
    rw [Uri.hasTail, List.any_append, List.any_cons, hplace]
    decide
  · refine ⟨_, (Uri.literalPath?_append_cons (by decide) (by decide)).mpr ⟨_, ?_, rfl⟩, hsegments⟩
    rw [Url.placeOf_of_stands hstands]
    have hhere : Uri.IsHere [] := .inl rfl
    exact .hosted hhere rfl

/-- The address of a path spells the parts of the path, and nothing stands behind it. -/
lemma exists_literalPath?_of_ofPath {raw : Path} {r : FileResource}
    (hr : ofPath plat workingDir raw = .ok r) :
    Uri.hasTail r.literal = false ∧ ∃ spelled, Uri.literalPath? r.literal = some spelled ∧
      spelled.segments = r.path.segments.filter (· != Name.dot) := by
  have hof := isOfPath_of_ofPath hr
  have hparts : r.path.components = r.path.segments.filter (· != Name.dot) := if_pos hof.isAbsolute
  rw [hof.literal_eq, hof.uri_eq, ← hparts]
  refine exists_literalPath?_fileAddress fun s hs => ?_
  rw [hparts] at hs
  exact Path.isSegment_of_mem_segments s (List.mem_filter.mp hs).1

/-- The address of a resource spells its path, but for the dots that say nothing in a path that was
given as such. -/
lemma Constructed.exists_literalPath? {r : FileResource} (hr : Constructed plat workingDir r) :
    ∃ raw, Uri.literalPath? r.literal = some raw ∧ (r.path = raw.collapse ∨
      Uri.hasTail r.literal = false ∧
        raw.segments = r.path.segments.filter (· != Name.dot)) := by
  rcases hr with hr | hr | ⟨-, hr⟩
  · obtain ⟨raw, hof⟩ := exists_isOfUri hr
    exact ⟨raw, hof.literal_eq ▸ hof.literalPath?_eq, .inl hof.path_eq⟩
  · obtain ⟨htail, raw, hraw, hsegments⟩ := exists_literalPath?_of_ofPath hr
    exact ⟨raw, hraw, .inr ⟨htail, hsegments⟩⟩
  · obtain ⟨raw, hof⟩ := exists_isOfUri hr
    exact ⟨raw, hof.literal_eq ▸ hof.literalPath?_eq, .inl hof.path_eq⟩

/-- What a path names below a resource has the segments of the resource and behind them the names
of the path, byte for byte; dots of the resource that say nothing may be left out. If the address of
the resource has a query or a fragment, it has the path of the resource and nothing else. -/
theorem segments_resolve {base child : FileResource} {sub : Text}
    (hbase : Constructed plat workingDir base) (hchild : base.resolve plat sub = .ok child) :
    (Uri.hasTail base.literal = false → ∃ front,
      (front = base.path.segments ∨ front = base.path.segments.filter (· != Name.dot)) ∧
        child.path.segments = front ++ (namesOf sub).map Utf8.encode) ∧
      (Uri.hasTail base.literal = true → child.path = base.path) := by
  obtain ⟨raw, hraw, hpath⟩ := hbase.exists_literalPath?
  obtain ⟨below, hof⟩ := exists_isOfUri hchild
  have hbelow := hof.literalPath?_eq
  constructor
  · intro htail
    refine ⟨raw.segments, ?_, ?_⟩
    · rcases hpath with hpath | ⟨-, hsegments⟩
      · rw [hpath, Path.segments_collapse]
        exact .inl rfl
      · exact .inr hsegments
    · rw [hof.path_eq, Path.segments_collapse, Uri.segments_below hraw sub htail hbelow]
  · intro htail
    rw [Uri.literalPath?_below_of_tail hraw sub htail] at hbelow
    rcases hpath with hpath | ⟨hnone, -⟩
    · rw [hof.path_eq, hpath, Option.some.inj hbelow]
    · rw [hnone] at htail
      cases htail

/-! ### A directory with a page -/

/-- A host with a directory and a page in it. -/
def pageHost : Host where
  rootModified := .tick 0
  rootEntries := [(Utf8.encode "www".toList, .dir (.tick 0) [(Utf8.encode "page".toList, .file 0)])]
  files := [⟨[], .tick 0⟩]
  clock := 1
  workingDir := []

/-- The resource for the directory by its address, with something behind it. -/
def directory (tail : Option Text) : FileResource where
  uri := ⟨"file".toList, some [], "/www/".toList, tail, none⟩
  literal := "file:///www/".toList ++ tail.elim [] ('?' :: ·)
  path := Path.ofText "/www".toList
  aliasPath := none

/-- Names with special characters come back from below the directory, dots and all. -/
theorem segments_resolve_page :
    Constructed pageHost.platform (Host.pathOf pageHost.workingDir) (directory none) ∧
      ∃ child, (directory none).resolve pageHost.platform "a%2F b//../?".toList = .ok child ∧
        ∃ front, (front = (directory none).path.segments ∨
          front = (directory none).path.segments.filter (· != Name.dot)) ∧
          child.path.segments = front ++ (namesOf "a%2F b//../?".toList).map Utf8.encode := by
  have hread : ofUri pageHost.platform "file:///www/".toList = .ok (directory none) :=
    eq_ok_of_toOption (by decide +kernel)
  have hbase : Constructed pageHost.platform (Host.pathOf pageHost.workingDir) (directory none) :=
    .new hread
  have hchild : ((directory none).resolve pageHost.platform "a%2F b//../?".toList).toOption.isSome =
      true := by
    decide +kernel
  obtain ⟨child, hchild⟩ := Option.isSome_iff_exists.mp hchild
  have hok := eq_ok_of_toOption hchild
  exact ⟨hbase, child, hok, (segments_resolve hbase hok).1 (by decide)⟩

/-- Below an address with a query the name of the page is lost. -/
theorem segments_resolve_of_query :
    Constructed pageHost.platform (Host.pathOf pageHost.workingDir) (directory (some ['x'])) ∧
      ∃ child, (directory (some ['x'])).resolve pageHost.platform "page".toList = .ok child ∧
        child.literal = "file:///www/?x/page".toList ∧
        ∀ front, (front = (directory (some ['x'])).path.segments ∨
          front = (directory (some ['x'])).path.segments.filter (· != Name.dot)) →
          child.path.segments ≠ front ++ (namesOf "page".toList).map Utf8.encode := by
  have hread : ofUri pageHost.platform "file:///www/?x".toList = .ok (directory (some ['x'])) :=
    eq_ok_of_toOption (by decide +kernel)
  refine ⟨.new hread, { directory (some ['x']) with
    uri := ⟨"file".toList, some [], "/www/".toList, some "x/page".toList, none⟩
    literal := "file:///www/?x/page".toList }, eq_ok_of_toOption (by decide +kernel), rfl, ?_⟩
  rintro front (rfl | rfl)
  · decide +kernel
  · decide +kernel

end FileResource

end ContentMounts
