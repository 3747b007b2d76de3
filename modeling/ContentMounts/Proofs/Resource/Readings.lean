import ContentMounts.Proofs.Alias.Dots
import ContentMounts.Proofs.Resource.Below
import ContentMounts.Proofs.Url.Reading

/-!
# Two readings of an address

The text of a file address is read twice when a resource is made. Its path is what the text spells,
literally; its address is what the general rules of addresses make of the text. These rules drop
tabs and line ends and the blanks at the end, take a backslash for a slash, and write the letter of a
drive with a colon. The literal reading does none of this, and none of the checks for aliases
compares the two.

They agree exactly where there is nothing to drop or change (`Uri.readsAlike`,
`FileResource.toPath?_uri_iff`). If there is nothing, each piece of the path is kept
(`Uri.Places.exists_readFile`). If there is something, the path that is read has less bulk than the
one that is spelled (`Uri.Places.bulk_readFile`), or its first segment is another one.
-/

namespace ContentMounts

namespace Uri

open Url

/-! ## The name of this host -/

/-- The characters of the name of this host. -/
structure HostChar (c : Char) : Prop where
  low : c.toNat < 0x80
  ne_percent : c ≠ '%'
  ne_bracket : c ≠ '['
  not_break : isBreak c = false
  not_slash : SchemeKind.file.isSlash c = false

lemma IsHere.hostChar {host : Text} (h : IsHere host) {c : Char} (hc : c ∈ host) : HostChar c := by
  rcases h with rfl | hlocal
  · cases hc
  · rw [Text.sameIgnoringCase, beq_iff_eq] at hlocal
    have hin : c.toLower ∈ Text.lower "localhost".toList := hlocal ▸ List.mem_map_of_mem hc
    have hletters : (Text.lower "localhost".toList).all (fun d => decide (d.toNat < 0x80) &&
        [d, d.toUpper].all fun e => decide (e.toNat < 0x80) && e != '%' && e != '[' &&
          !isBreak e && !SchemeKind.file.isSlash e) = true := by
      decide
    have hletter := List.all_eq_true.mp hletters _ hin
    rw [Bool.and_eq_true, decide_eq_true_eq] at hletter
    have hcase : c ∈ [c.toLower, c.toLower.toUpper] := by
      rcases eq_of_toLower hletter.1 rfl with heq | heq
      · simp [← heq]
      · simp [← heq]
    have hfacts := List.all_eq_true.mp hletter.2 c hcase
    simp only [Bool.and_eq_true, decide_eq_true_eq, bne_iff_ne, Bool.not_eq_true'] at hfacts
    obtain ⟨⟨⟨⟨hlow, hmark⟩, hbracket⟩, hbreak⟩, hslash⟩ := hfacts
    exact ⟨hlow, hmark, hbracket, hbreak, hslash⟩

/-- The name of this host is read as no name. -/
lemma IsHere.readFileHost_eq {host : Text} (h : IsHere host) : readFileHost host = .ok [] := by
  have hchars := fun c hc => h.hostChar (c := c) hc
  rcases h with rfl | hlocal
  · rfl
  · have hname : Text.lower (Utf8.decodeLossy (Percent.decode host)) = "localhost".toList := by
      rw [Percent.decode_of_forall_ne fun c hc => ⟨(hchars c hc).low, (hchars c hc).ne_percent⟩,
        Utf8.decodeLossy_encode]
      rw [Text.sameIgnoringCase, beq_iff_eq] at hlocal
      exact hlocal.trans (by decide)
    have hparse : Host.parse host = .ok "localhost".toList := by
      have hbracket : host.head? ≠ some '[' := fun hhead =>
        (hchars '[' (List.mem_of_head? hhead)).ne_bracket rfl
      rw [Host.parse, if_neg hbracket]
      dsimp only
      rw [hname]
      rfl
    unfold readFileHost
    split
    · rfl
    · rw [hparse]
      rfl

lemma IsHere.not_drive {host : Text} (h : IsHere host) : isDriveLetter host = false := by
  rw [Bool.eq_false_iff]
  intro hdrive
  obtain ⟨c, d, rfl, -, -⟩ := exists_of_isDriveLetter hdrive
  rcases h with hnil | hlocal
  · cases hnil
  · rw [Text.sameIgnoringCase, beq_iff_eq] at hlocal
    exact absurd (congrArg List.length hlocal) (by simp [Text.lower])

/-- The path behind the name of this host is read by itself. -/
lemma readFile_hosted {host path : Text} (h : IsHere host) (hhead : path.head? = some '/') :
    readFile ('/' :: '/' :: (host ++ path)) = .ok (readFilePath [] path) := by
  have htake : (host ++ path).takeWhile (!SchemeKind.file.isSlash ·) = host := by
    obtain ⟨rest, rfl⟩ := List.head?_eq_some_iff.mp hhead
    rw [List.takeWhile_append_of_pos, List.takeWhile_cons_of_neg (by decide), List.append_nil]
    intro c hc
    simp [(h.hostChar hc).not_slash]
  have hbreaks : withoutBreaks host = host :=
    withoutBreaks_eq_self fun c hc => (h.hostChar hc).not_break
  unfold readFile
  rw [behindSlash?_slash]
  dsimp only
  rw [behindSlash?_slash]
  dsimp only
  rw [htake, hbreaks, h.not_drive, if_neg Bool.false_ne_true, h.readFileHost_eq, List.drop_left]
  rfl

/-! ## The path in its place -/

section

variable {place path : Text} (h : Places place path)

include h

/-- The name of this host holds nothing that does not come back. -/
lemma Places.any_isRespelled : place.any isRespelled = path.any isRespelled := by
  rcases h with ⟨-, -⟩ | ⟨hhere, -⟩
  · rfl
  · next host =>
    have hhost : host.any isRespelled = false := by
      rw [List.any_eq_false]
      intro c hc
      have hchar := hhere.hostChar hc
      have hback : c ≠ '\\' := by
        rintro rfl
        have hslash := hchar.not_slash
        cases hslash
      simp [isRespelled, hchar.not_break, hback]
    have hslash : isRespelled '/' = false := by decide
    rw [List.any_cons, List.any_cons, List.any_append, hhost, hslash]
    rfl

/-- Blanks at the end of an address are those at the end of its path. -/
lemma Places.dropEndWhile :
    Places (Text.dropEndWhile (· ≤ ' ') place) (Text.dropEndWhile (· ≤ ' ') path) := by
  have hstart : (Text.dropEndWhile (· ≤ ' ') path).head? = some '/' := by
    obtain ⟨rest, rfl⟩ := List.head?_eq_some_iff.mp h.head?
    exact congrArg List.head?
      (Text.dropEndWhile_append_cons (p := (· ≤ ' ')) (c := '/') (by decide) [] rest)
  have hne : Text.dropEndWhile (· ≤ ' ') path ≠ [] := by
    intro hnil
    rw [hnil] at hstart
    cases hstart
  have hprefix := Text.dropEndWhile_prefix_self (· ≤ ' ') path
  rcases h with ⟨hhead, hbare⟩ | ⟨hhere, hhead⟩
  · exact .bare hstart fun hdouble => hbare (hdouble.trans hprefix)
  · next host =>
    have hplace := Text.dropEndWhile_append (p := (· ≤ ' ')) hne ('/' :: '/' :: host)
    rw [List.cons_append, List.cons_append, List.cons_append, List.cons_append] at hplace
    rw [hplace]
    exact .hosted hhere hstart

/-- A path loses by reading whatever of it does not come back. -/
theorem Places.bulk_readFile {host read : Text} (hread : readFile place = .ok (host, read)) :
    Path.bulk read ≤ Path.bulk path ∧
      (path.any isRespelled = true → Path.bulk read < Path.bulk path) := by
  have hpath : ∀ t, Path.bulk t = Path.bulk path → t.countP isRespelled = path.countP isRespelled →
      readFilePath [] t = (host, read) → Path.bulk read ≤ Path.bulk path ∧
        (path.any isRespelled = true → Path.bulk read < Path.bulk path) := by
    intro t hbulk hcount heq
    have hle := bulk_readFilePath_le [] t
    rw [heq, hbulk, hcount] at hle
    refine ⟨(Nat.le_add_right _ _).trans hle, fun hany => ?_⟩
    have hpos := List.countP_pos_iff.mpr (List.any_eq_true.mp hany)
    dsimp only at hle
    omega
  rcases h with ⟨hhead, hbare⟩ | ⟨hhere, hhead⟩
  · obtain ⟨rest, rfl⟩ := List.head?_eq_some_iff.mp hhead
    cases hbehind : behindSlash? rest with
    | none =>
      rw [readFile_bare hbehind] at hread
      exact hpath rest (Path.bulk_slash rest).symm rfl (Except.ok.inj hread)
    | some place =>
      have hslash : rest.head? ≠ some '/' := by
        intro hslash
        obtain ⟨more, rfl⟩ := List.head?_eq_some_iff.mp hslash
        exact hbare ⟨more, rfl⟩
      have hlt := (bulk_readFile_le hbehind hread).trans_lt (bulk_lt_of_behindSlash? hbehind hslash)
      rw [Path.bulk_slash]
      exact ⟨hlt.le, fun _ => hlt⟩
  · rw [readFile_hosted hhere hhead] at hread
    exact hpath path rfl rfl (Except.ok.inj hread)

/-- A path that comes back is read as what it spells, unless a bar stands behind the letter of a
drive. -/
theorem Places.exists_readFile (hkept : place.any isRespelled = false)
    (hproper : ∀ s ∈ (Path.spelled path).segments, Name.IsProper s) :
    ∃ read, readFile place = .ok ([], read) ∧ read.head? = some '/' ∧
      ((Path.spelled read).segments = (Path.spelled path).segments ↔
        startsWithBar (place.drop 1) = false) := by
  have hpath : ∀ c ∈ path, isBreak c = false ∧ c ≠ '\\' := by
    rw [h.any_isRespelled, List.any_eq_false] at hkept
    intro c hc
    simpa [isRespelled] using hkept c hc
  have hread : ∀ t : Text, (∀ c ∈ t, isBreak c = false ∧ c ≠ '\\') →
      (Path.spelled t).segments = (Path.spelled path).segments →
      (readFilePath [] t).1 = [] ∧ ((Path.spelled (readFilePath [] t).2).segments =
        (Path.spelled path).segments ↔ startsWithBar t = false) := by
    intro t hplain hsegments
    rw [← hsegments] at hproper ⊢
    cases hbar : startsWithBar t with
    | false =>
      obtain ⟨hhost, hsame⟩ := segments_readFilePath hplain hproper hbar
      exact ⟨hhost, iff_of_true hsame rfl⟩
    | true =>
      obtain ⟨hhost, hother⟩ := segments_readFilePath_ne hplain hproper hbar
      exact ⟨hhost, iff_of_false hother (by decide)⟩
  rcases h with ⟨hhead, hbare⟩ | ⟨hhere, hhead⟩
  · obtain ⟨rest, rfl⟩ := List.head?_eq_some_iff.mp hhead
    have hbehind : behindSlash? rest = none := by
      cases rest with
      | nil => rfl
      | cons c rest =>
        obtain ⟨hbreak, hback⟩ := hpath c (by simp)
        have hslash : c ≠ '/' := by
          rintro rfl
          exact hbare ⟨rest, rfl⟩
        rw [behindSlash?, List.dropWhile_cons_of_neg (by simp [hbreak])]
        exact if_neg (by simp [SchemeKind.isSlash, hslash, hback])
    obtain ⟨hhost, hsame⟩ := hread rest (fun c hc => hpath c (List.mem_cons_of_mem _ hc))
      (Path.segments_spelled_slash rest).symm
    exact ⟨_, (readFile_bare hbehind).trans (congrArg Except.ok (Prod.ext hhost rfl)), rfl, hsame⟩
  · obtain ⟨hhost, hsame⟩ := hread path hpath rfl
    obtain ⟨rest, rfl⟩ := List.head?_eq_some_iff.mp hhead
    refine ⟨_, (readFile_hosted hhere hhead).trans (congrArg Except.ok (Prod.ext hhost rfl)), rfl,
      ?_⟩
    rw [hsame, startsWithBar_slash, List.drop_one, List.tail_cons, startsWithBar_slash]

end

/-! ## Whether the two readings agree -/

/-- What stands between the scheme of an address and its query or fragment. -/
def placeIn (input : Text) : Text :=
  (Text.cut? [':'] input).elim [] fun (_, rest) => placeOf rest

/-- Whether the path of an address is read as what it spells: nothing in it is left out or becomes a
slash, no blanks at its end are trimmed, and no bar behind the letter of a drive becomes a colon. -/
def readsAlike (input : Text) : Bool :=
  !(placeIn input).any isRespelled
    && (hasTail input || !input.getLast?.any (· ≤ ' '))
    && !startsWithBar ((placeIn input).drop 1)

lemma Places.getLast? {place path : Text} (h : Places place path) (front : Text) :
    (front ++ place).getLast? = path.getLast? := by
  have hlast : ∀ before, (before ++ path).getLast? = path.getLast? := by
    obtain ⟨behind, rfl⟩ := List.head?_eq_some_iff.mp h.head?
    intro before
    rw [List.getLast?_append, List.getLast?_cons]
    rfl
  rcases h with ⟨-, -⟩ | ⟨-, -⟩
  · exact hlast front
  · next host =>
    rw [← List.cons_append, ← List.cons_append, ← List.append_assoc]
    exact hlast _

section

variable {scheme rest path : Text} (hcolon : ':' ∉ scheme)
  (hfile : Text.sameIgnoringCase scheme "file".toList = true)
  (hplaces : Places (placeOf rest) path)

include hcolon hfile hplaces

lemma readsAlike_iff :
    readsAlike (scheme ++ ':' :: rest) = true ↔ path.any isRespelled = false ∧
      (rest.any endsPath = true ∨ path.getLast?.any (· ≤ ' ') = false) ∧
      startsWithBar ((placeOf rest).drop 1) = false := by
  have hplace : placeIn (scheme ++ ':' :: rest) = placeOf rest := by
    rw [placeIn, cut?_singleton_eq_some_iff.mpr ⟨rfl, hcolon⟩]
    rfl
  have hend : (rest.any endsPath = true ∨
      (scheme ++ ':' :: rest).getLast?.any (· ≤ ' ') = false) ↔
      (rest.any endsPath = true ∨ path.getLast?.any (· ≤ ' ') = false) := by
    cases htail : rest.any endsPath with
    | true => simp
    | false =>
      rw [placeOf_eq_self htail] at hplaces
      have hlast := hplaces.getLast? (scheme ++ [':'])
      rw [List.append_assoc, List.singleton_append] at hlast
      rw [hlast]
  rw [readsAlike, hplace, hplaces.any_isRespelled, hasTail_append_cons hfile]
  simp only [Bool.and_eq_true, Bool.or_eq_true, Bool.not_eq_true', and_assoc]
  rw [hend]

end

/-- An address that does not end in a blank, or in whose path the blank is not, keeps its place. -/
lemma placeOf_dropEndWhile {rest path : Text} (hplaces : Places (placeOf rest) path)
    (hend : rest.any endsPath = true ∨ path.getLast?.any (· ≤ ' ') = false) :
    placeOf (Text.dropEndWhile (· ≤ ' ') rest) = placeOf rest := by
  cases htail : rest.any endsPath with
  | true =>
    obtain ⟨place, d, behind, rfl, hplace, hd⟩ := exists_tail htail
    have hblank : decide (d ≤ ' ') = false := by
      rw [endsPath, Bool.or_eq_true, beq_iff_eq, beq_iff_eq] at hd
      rcases hd with rfl | rfl <;> decide
    rw [Text.dropEndWhile_append_cons hblank, placeOf_append_cons hplace hd,
      placeOf_append_cons hplace hd]
  | false =>
    rw [placeOf_eq_self htail] at hplaces
    have hlast := hplaces.getLast? []
    rw [List.nil_append] at hlast
    rw [Text.dropEndWhile_of_getLast? (hlast ▸ hend.resolve_left (by simp [htail]))]

/-- Blanks at the end of an address without a query or a fragment are trimmed from its path. -/
lemma places_dropEndWhile {rest path : Text} (hplaces : Places (placeOf rest) path)
    (htail : rest.any endsPath = false) :
    Places (placeOf (Text.dropEndWhile (· ≤ ' ') rest)) (Text.dropEndWhile (· ≤ ' ') path) := by
  have hkept : (Text.dropEndWhile (· ≤ ' ') rest).any endsPath = false := by
    rw [List.any_eq_false] at htail ⊢
    exact fun c hc => htail c (Text.mem_of_mem_dropEndWhile hc)
  rw [placeOf_eq_self htail] at hplaces
  rw [placeOf_eq_self hkept]
  exact hplaces.dropEndWhile

/-- A blank at the end has a bulk of its own. -/
lemma bulk_concat_blank {c : Char} (h : c ≤ ' ') (t : Text) :
    Path.bulk (t ++ [c]) = Path.bulk t + 1 := by
  have hlow : c.toNat < 0x80 := Nat.lt_of_le_of_lt (UInt32.le_iff_toNat_le.mp h) (by decide)
  have hfacts : ∀ n < 0x80, Char.ofNat n ≤ ' ' → Char.ofNat n ≠ '%' ∧ Char.ofNat n ≠ '/' ∧
      Percent.hexByte? (UInt8.ofNat (Char.ofNat n).toNat) = none := by
    decide
  obtain ⟨hmark, hslash, hdigit⟩ := of_forall_ascii (P := fun c => c ≤ ' ' → c ≠ '%' ∧ c ≠ '/' ∧
    Percent.hexByte? (UInt8.ofNat c.toNat) = none) hfacts hlow h
  rw [Path.bulk_append_cons ⟨hlow, hmark, hdigit⟩, Path.bulk_cons_of_ne hlow hmark hslash]
  rfl

/-- Blanks that are trimmed take from the bulk of a path. -/
lemma bulk_dropEndWhile_le (path : Text) :
    Path.bulk (Text.dropEndWhile (· ≤ ' ') path) ≤ Path.bulk path ∧
      (path.getLast?.any (· ≤ ' ') = true →
        Path.bulk (Text.dropEndWhile (· ≤ ' ') path) < Path.bulk path) := by
  induction path using List.reverseRecOn with
  | nil => exact ⟨Nat.le_refl _, fun h => by cases h⟩
  | append_singleton path c ih =>
    by_cases hc : c ≤ ' '
    · rw [Text.dropEndWhile_concat (by simpa using hc), bulk_concat_blank hc]
      exact ⟨ih.1.trans (Nat.le_succ _), fun _ => Nat.lt_succ_of_le ih.1⟩
    · rw [Text.dropEndWhile_concat_of_not (by simpa using hc)]
      exact ⟨Nat.le_refl _, fun h => absurd (by simpa using h) hc⟩

end Uri

namespace Url

/-- The address that a text of the scheme of files is read as. -/
lemma exists_readFile_of_parse {scheme rest : Text} {u : Url}
    (hfile : Text.sameIgnoringCase scheme "file".toList = true)
    (h : parse (scheme ++ ':' :: rest) = .ok u) :
    ∃ host, readFile (placeOf (Text.dropEndWhile (· ≤ ' ') rest)) = .ok (host, u.path) ∧
      u.authority = some host := by
  obtain ⟨hlower, hhead, hall⟩ := Uri.isScheme_of_file hfile
  rw [parse_append hhead hall, hlower] at h
  obtain ⟨⟨authority, path⟩, hplace, rfl⟩ := exists_of_map_eq_ok h
  have hkind : schemeKind "file".toList = .file := by decide
  rw [hkind, readPlace, if_pos rfl] at hplace
  obtain ⟨⟨host, read⟩, hread, heq⟩ := exists_of_map_eq_ok hplace
  cases heq
  exact ⟨host, hread, rfl⟩

/-- The bytes of a path are those that its pieces spell, each behind a slash. -/
lemma decode_slash_intercalate {pieces : List Text} (h : pieces ≠ []) :
    Percent.decode ('/' :: List.intercalate ['/'] pieces) =
      (pieces.map fun piece => Path.slash :: Percent.decode piece).flatten := by
  induction pieces with
  | nil => exact absurd rfl h
  | cons piece pieces ih =>
    cases pieces with
    | nil => simp [Percent.decode_slash]
    | cons next pieces =>
      rw [List.map_cons, List.flatten_cons, ← ih (List.cons_ne_nil _ _),
        List.intercalate_cons_cons, List.append_assoc, List.singleton_append, Percent.decode_slash,
        Percent.decode_append_cons Path.isCut_slash, Percent.decode_slash]
      rfl

/-- The path of an address has the segments that the address spells. -/
lemma segments_toPath? {u : Url} {p : Path} (h : u.toPath? = some p) :
    u.authority.getD [] = [] ∧ p.isAbsolute = true ∧
      p.segments = (Path.spelled u.path).segments := by
  unfold toPath? at h
  split at h
  · next hhost =>
    split at h
    · next rest hpath =>
      have hbytes : ((rest.splitOn '/').map fun s => Path.slash :: Percent.decode s).flatten =
          Percent.decode u.path := by
        rw [hpath, ← decode_slash_intercalate (List.splitOn_ne_nil '/' rest),
          List.intercalate_splitOn]
      have hslash : Percent.decode u.path = Path.slash :: Percent.decode rest := by
        rw [hpath, Percent.decode_slash]
      refine ⟨List.isEmpty_iff.mp hhost, ?_⟩
      rw [← Option.some.inj h, hbytes]
      split
      · refine ⟨by rw [hslash]; rfl, ?_⟩
        exact (Path.segments_append_slash (Percent.decode u.path) []).trans (List.append_nil _)
      · exact ⟨by rw [hslash]; rfl, rfl⟩
    · cases h
  · cases h

/-- An address of this host has a path. -/
lemma exists_toPath? {u : Url} (hhost : u.authority.getD [] = [])
    (hhead : u.path.head? = some '/') : ∃ p, u.toPath? = some p := by
  obtain ⟨rest, hrest⟩ := List.head?_eq_some_iff.mp hhead
  unfold toPath?
  rw [hhost, hrest]
  exact ⟨_, rfl⟩

end Url

namespace FileResource

variable {plat : Platform}

/-- For what is resolved without an alias, the path of the address as it is read is the path of the
resource exactly if the address is read as what it spells. -/
theorem toPath?_uri_iff (hplat : plat.Lexical) {input : Text} {r : FileResource}
    (hr : ofUri plat input = .ok r) (halias : r.aliasPath = none) :
    (∃ p, r.uri.toPath? = some p ∧ p.sameComponents r.path = true) ↔
      Uri.readsAlike input = true := by
  obtain ⟨raw, hof⟩ := exists_isOfUri hr
  obtain ⟨scheme, rest, path, rfl, hcolon, hfile, hplaces, rfl⟩ :=
    Uri.literalPath?_eq_some_iff.mp hof.literalPath?_eq
  obtain ⟨host, hread, hhost⟩ := Url.exists_readFile_of_parse hfile hof.parse_eq
  have habs : r.path.isAbsolute = true := by
    rw [hof.path_eq, Path.isAbsolute_collapse]
    exact Uri.isAbsolute_of_literalPath? hof.literalPath?_eq
  have hsegments : r.path.segments = (Path.spelled path).segments := by
    rw [hof.path_eq, Path.segments_collapse]
  have hproper : ∀ s ∈ (Path.spelled path).segments, Name.IsProper s := by
    have hnone := hof.alias_eq.symm.trans halias
    rw [← hof.path_eq] at hnone
    rw [← hsegments]
    exact hplat.isProper_of_detect habs hnone
  rw [Uri.readsAlike_iff hcolon hfile hplaces]
  constructor
  · rintro ⟨p, hp, hsame⟩
    obtain ⟨-, hpabs, hpsegments⟩ := Url.segments_toPath? hp
    have hparts : (Path.spelled r.uri.path).segments.filter (· != Name.dot) =
        (Path.spelled path).segments := by
      rw [← hpsegments, ← hsegments]
      exact Path.filter_segments_of_sameComponents hsame hpabs habs (hsegments ▸ hproper)
    obtain ⟨hle, hkeeps⟩ := Path.segments_spelled_eq_of_bulk_le hparts
    have hend : rest.any Url.endsPath = true ∨ path.getLast?.any (· ≤ ' ') = false := by
      by_contra hblank
      rw [not_or, Bool.not_eq_true, Bool.not_eq_false] at hblank
      have hread := ((Uri.places_dropEndWhile hplaces hblank.1).bulk_readFile hread).1
      have hlt := (Uri.bulk_dropEndWhile_le path).2 hblank.2
      omega
    rw [Uri.placeOf_dropEndWhile hplaces hend] at hread
    obtain ⟨hbulk, hstrict⟩ := hplaces.bulk_readFile hread
    have hkept : path.any Url.isRespelled = false := by
      rw [Bool.eq_false_iff]
      intro hany
      have hlt := hstrict hany
      omega
    obtain ⟨read, hread', -, hiff⟩ := hplaces.exists_readFile
      (hplaces.any_isRespelled.trans hkept) hproper
    rw [hread] at hread'
    obtain ⟨-, rfl⟩ := Prod.mk.inj (Except.ok.inj hread')
    exact ⟨hkept, hend, hiff.mp (hkeeps hbulk)⟩
  · rintro ⟨hkept, hend, hbar⟩
    rw [Uri.placeOf_dropEndWhile hplaces hend] at hread
    obtain ⟨read, hread', hhead, hiff⟩ := hplaces.exists_readFile
      (hplaces.any_isRespelled.trans hkept) hproper
    rw [hread] at hread'
    obtain ⟨rfl, rfl⟩ := Prod.mk.inj (Except.ok.inj hread')
    obtain ⟨p, hp⟩ := Url.exists_toPath? (by rw [hhost]; rfl) hhead
    obtain ⟨-, hpabs, hpsegments⟩ := Url.segments_toPath? hp
    refine ⟨p, hp, Path.sameComponents_of_segments (hpabs.trans habs.symm) ?_⟩
    rw [hpsegments, hiff.mpr hbar, hsegments]

/-! ### A file with a backslash in its name -/

/-- A host with one file. -/
def fileHost (name : Text) : Host where
  rootModified := .tick 0
  rootEntries := [(Utf8.encode name, .file 0)]
  files := [⟨[], .tick 0⟩]
  clock := 1
  workingDir := []

/-- A name with a space and an escape is read as it is spelled. -/
theorem toPath?_uri_of_space :
    (fileHost "a b".toList).platform.Lexical ∧
      ∃ r, ofUri (fileHost "a b".toList).platform "FILE://LocalHost/a %62".toList = .ok r ∧
        r.aliasPath = none ∧ ∃ p, r.uri.toPath? = some p ∧ p.sameComponents r.path = true := by
  have hlexical := Platform.lexical_platform (fileHost "a b".toList)
  have hr : ofUri (fileHost "a b".toList).platform "FILE://LocalHost/a %62".toList =
      .ok ⟨⟨"file".toList, some [], "/a%20%62".toList, none, none⟩,
        "FILE://LocalHost/a %62".toList, Path.ofText "/a b".toList, none⟩ :=
    eq_ok_of_toOption (by decide +kernel)
  exact ⟨hlexical, _, hr, rfl, (toPath?_uri_iff hlexical hr rfl).mpr (by decide +kernel)⟩

/-- A backslash is a slash for whoever reads the address, and part of a name for who spells the
path: the file is found without an alias, but its address is that of another one. -/
theorem toPath?_uri_of_backslash :
    ∃ r p, ofUri (fileHost "a\\b".toList).platform "file:///a\\b".toList = .ok r ∧
      r.aliasPath = none ∧ (fileHost "a\\b".toList).pathExists r.path = true ∧
      r.uri.toPath? = some p ∧ p.sameComponents r.path = false := by
  refine ⟨⟨⟨"file".toList, some [], "/a/b".toList, none, none⟩, "file:///a\\b".toList,
    Path.ofText "/a\\b".toList, none⟩, Path.ofText "/a/b".toList,
    eq_ok_of_toOption (by decide +kernel), rfl, ?_, ?_, ?_⟩
  · decide +kernel
  · decide +kernel
  · decide +kernel

end FileResource

end ContentMounts
