import Mathlib.Data.List.TakeWhile
import ContentMounts.Proofs.Path.Segments
import ContentMounts.Proofs.Url.Parse
import ContentMounts.Url.File

/-!
# Addresses of files

The address of a path at the root without dots (`ofPath?_ofSegments`) is read back as it was written
(`parse_fileAddress`), and its path is the path that it was made from, but for a final separator
behind what looks like the root of a drive (`toPath?_fileAddress`). No character that an address
could read differently is left in it (`stands_joinSegments`), so it may stand inside another address
whose scheme has no rules of its own (`parse_of_opaque`). The names that a client asks for are
written in segments of their own, with less escaped (`stands_encodeSegment`).
-/

namespace ContentMounts

namespace Url

/-! ## Texts without special characters -/

/-- The characters that a path is written with are neither trimmed nor left out, do not end the path
and are not escaped in it. -/
structure PathChar (c : Char) : Prop where
  not_blank : ¬c ≤ ' '
  not_break : isBreak c = false
  not_end : endsPath c = false
  plain : Percent.IsPlain Percent.controls c

lemma isPlain_slash : Percent.IsPlain pathSet '/' := ⟨by decide, by decide⟩

lemma pathChar_of_isPlain {c : Char} (h : Percent.IsPlain pathSet c) : PathChar c := by
  have hfacts : ∀ n < 0x80, pathSet (UInt8.ofNat (Char.ofNat n).toNat) = false →
      (¬Char.ofNat n ≤ ' ' ∧ isBreak (Char.ofNat n) = false ∧ endsPath (Char.ofNat n) = false) ∧
        Percent.controls (UInt8.ofNat (Char.ofNat n).toNat) = false := by
    decide
  obtain ⟨⟨hblank, hbreak, hend⟩, hcontrols⟩ :=
    of_forall_ascii (P := fun c => pathSet (UInt8.ofNat c.toNat) = false →
      (¬c ≤ ' ' ∧ isBreak c = false ∧ endsPath c = false) ∧
        Percent.controls (UInt8.ofNat c.toNat) = false) hfacts h.1 h.2
  exact ⟨hblank, hbreak, hend, h.1, hcontrols⟩

section

variable {t : Text} (h : Percent.Stands pathSet t)

include h

lemma dropEndWhile_of_stands : Text.dropEndWhile (· ≤ ' ') t = t := by
  rcases List.eq_nil_or_concat' t with rfl | ⟨init, c, rfl⟩
  · rfl
  · have hc := (pathChar_of_isPlain (h c (by simp))).not_blank
    exact Text.dropEndWhile_concat_of_not (by simpa using hc) init

lemma withoutBreaks_of_stands : withoutBreaks t = t :=
  withoutBreaks_eq_self fun c hc => (pathChar_of_isPlain (h c hc)).not_break

lemma takeWhile_not_endsPath_of_stands : t.takeWhile (!endsPath ·) = t := by
  rw [List.takeWhile_eq_self_iff]
  intro c hc
  simp [(pathChar_of_isPlain (h c hc)).not_end]

lemma placeOf_of_stands : placeOf t = t := takeWhile_not_endsPath_of_stands h

lemma tailOf_of_stands : tailOf t = [] := by
  rw [tailOf, placeOf_of_stands h, List.drop_length]
  rfl

lemma encode_controls_of_stands : Percent.encode Percent.controls t = t :=
  Percent.encode_of_stands fun c hc => (pathChar_of_isPlain (h c hc)).plain

end

/-- Tabs and line ends are control characters. -/
lemma withoutBreaks_of_controls {t : Text} (h : Percent.Stands Percent.controls t) :
    withoutBreaks t = t := by
  have hfacts : ∀ n < 0x80, Percent.controls (UInt8.ofNat (Char.ofNat n).toNat) = false →
      isBreak (Char.ofNat n) = false := by
    decide
  refine withoutBreaks_eq_self fun c hc => ?_
  exact of_forall_ascii
    (P := fun c => Percent.controls (UInt8.ofNat c.toNat) = false → isBreak c = false) hfacts
    (h c hc).1 (h c hc).2

/-- Behind a scheme without rules of its own a text stands as it is, if it neither starts with a
slash nor ends in a blank, and holds neither control characters nor an end of the path. -/
theorem parse_of_controls {s t : Text} (hs : IsScheme s) (hk : schemeKind s = .other)
    (ht : Percent.Stands Percent.controls t) (hend : ∀ c ∈ t, endsPath c = false)
    (hvisible : Text.dropEndWhile (· ≤ ' ') t = t) (hhead : t.head? ≠ some '/') :
    parse (s ++ ':' :: t) = .ok ⟨s, none, t, none, none⟩ := by
  have hplace : placeOf t = t := by
    rw [placeOf, List.takeWhile_eq_self_iff]
    intro c hc
    simp [hend c hc]
  have htail : tailOf t = [] := by
    rw [tailOf, hplace, List.drop_length]
    rfl
  have hread : readGeneric .other t false = .ok (none, t) := by
    unfold readGeneric
    rw [if_neg (by decide)]
    split
    · simp at hhead
    · simp at hhead
    · rw [Percent.encode_of_stands ht]
      rfl
  rw [parse_of_isScheme hs, hvisible, readRest, hplace, htail, hk, readPlace,
    if_neg (by decide), withoutBreaks_of_controls ht]
  simp only [List.isEmpty_nil, Bool.not_true, hread]
  rfl

/-- So does a text that is written as a path. -/
theorem parse_of_opaque {s t : Text} (hs : IsScheme s) (hk : schemeKind s = .other)
    (ht : Percent.Stands pathSet t) (hhead : t.head? ≠ some '/') :
    parse (s ++ ':' :: t) = .ok ⟨s, none, t, none, none⟩ :=
  parse_of_controls hs hk (fun c hc => (pathChar_of_isPlain (ht c hc)).plain)
    (fun c hc => (pathChar_of_isPlain (ht c hc)).not_end) (dropEndWhile_of_stands ht) hhead

/-! ## Segments of an address -/

/-- A segment as it is written in the address of a path. -/
structure IsWritten (piece : Text) : Prop where
  ne_nil : piece ≠ []
  stands : Percent.Stands pathSet piece
  not_slash : ∀ c ∈ piece, SchemeKind.file.isSlash c = false
  not_single : isSingleDot piece = false
  not_double : isDoubleDot piece = false

lemma Trail.read_of_isWritten {piece : Text} (h : IsWritten piece) (t : Trail) :
    t.read piece = ⟨piece :: t.stack, false⟩ := by
  unfold Trail.read
  dsimp only
  rw [Percent.encode_of_stands h.stands, h.not_double, h.not_single, if_neg Bool.false_ne_true,
    if_neg Bool.false_ne_true]

/-- Only in first place something else than dots is looked for. -/
lemma FileTrail.read_behind {host piece : Text} {t : Trail} (hstack : t.stack ≠ [])
    (hkeep : withoutBreaks piece = piece) :
    FileTrail.read ⟨host, t⟩ piece = ⟨host, t.read piece⟩ := by
  unfold FileTrail.read
  dsimp only
  rw [if_neg (by simpa using hstack), hkeep]

/-- Pieces that are read as one segment each are laid one on the other. -/
lemma FileTrail.foldl_read_of_laid {pieces : List Text} {written : Text → Text}
    (hkeep : ∀ piece ∈ pieces, withoutBreaks piece = piece)
    (hread : ∀ piece ∈ pieces, ∀ t : Trail, t.read piece = ⟨written piece :: t.stack, false⟩)
    {host : Text} {stack : List Text} (hstack : stack ≠ []) :
    pieces.foldl FileTrail.read ⟨host, ⟨stack, false⟩⟩ =
      ⟨host, ⟨(pieces.map written).reverse ++ stack, false⟩⟩ := by
  induction pieces generalizing stack with
  | nil => rfl
  | cons piece pieces ih =>
    rw [List.foldl_cons, FileTrail.read_behind hstack (hkeep piece List.mem_cons_self),
      hread piece List.mem_cons_self, ih (fun p hp => hkeep p (List.mem_cons_of_mem piece hp))
        (fun p hp => hread p (List.mem_cons_of_mem piece hp)) (List.cons_ne_nil _ stack)]
    simp

/-- Written segments are laid one on the other. -/
lemma FileTrail.foldl_read {pieces : List Text} (h : ∀ piece ∈ pieces, IsWritten piece)
    {host : Text} {stack : List Text} (hstack : stack ≠ []) :
    pieces.foldl FileTrail.read ⟨host, ⟨stack, false⟩⟩ =
      ⟨host, ⟨pieces.reverse ++ stack, false⟩⟩ := by
  have hlaid : pieces.foldl FileTrail.read ⟨host, ⟨stack, false⟩⟩ =
      ⟨host, ⟨(pieces.map id).reverse ++ stack, false⟩⟩ :=
    FileTrail.foldl_read_of_laid
      (fun piece hpiece => withoutBreaks_of_stands (h piece hpiece).stands)
      (fun piece hpiece => Trail.read_of_isWritten (h piece hpiece)) hstack
  rwa [List.map_id] at hlaid

/-- Slashes at the start of the path of a file count as one. -/
lemma readFilePath_joinSegments {pieces : List Text} (h : ∀ piece ∈ pieces, IsWritten piece) :
    readFilePath [] (joinSegments pieces) = ([], joinSegments pieces) := by
  have hstart : (joinSegments pieces).splitOnP SchemeKind.file.isSlash =
      [] :: (List.intercalate ['/'] pieces).splitOnP SchemeKind.file.isSlash := by
    rw [joinSegments, List.splitOnP_cons_eq_if_modifyHead, if_pos (by decide)]
  have hfirst : FileTrail.read ⟨[], Trail.empty⟩ [] = ⟨[], ⟨[[]], false⟩⟩ := by rfl
  unfold readFilePath
  rw [hstart, List.foldl_cons, hfirst]
  cases pieces with
  | nil => rfl
  | cons piece pieces =>
    have hpiece := h piece List.mem_cons_self
    obtain ⟨c, rest, rfl⟩ := List.exists_cons_of_ne_nil hpiece.ne_nil
    have hc : c ≠ '/' := by
      rintro rfl
      have hslash := hpiece.not_slash '/' List.mem_cons_self
      cases hslash
    obtain ⟨tail, hjoined⟩ : ∃ tail,
        List.intercalate ['/'] ((c :: rest) :: pieces) = c :: tail := by
      cases pieces with
      | nil => exact ⟨rest, by simp⟩
      | cons next pieces => exact ⟨_, List.intercalate_cons_cons⟩
    rw [splitOnP_intercalate (by decide) (fun p hp => (h p hp).not_slash)
      (List.cons_ne_nil _ pieces), FileTrail.foldl_read h (List.cons_ne_nil [] [])]
    dsimp only [FileTrail.path, Trail.segments]
    rw [if_neg Bool.false_ne_true, List.reverse_append, List.reverse_reverse,
      List.reverse_singleton, List.singleton_append, joinSegments, joinSegments,
      List.intercalate_cons_cons, hjoined]
    simp [hc]

lemma stands_joinSegments {pieces : List Text}
    (h : ∀ piece ∈ pieces, Percent.Stands pathSet piece) :
    Percent.Stands pathSet (joinSegments pieces) := by
  rw [joinSegments, Percent.stands_cons]
  refine ⟨isPlain_slash, fun c hc => ?_⟩
  rcases eq_or_exists_of_mem_intercalate hc with rfl | ⟨piece, hpiece, hin⟩
  · exact isPlain_slash
  · exact h piece hpiece c hin

/-- The address of the file with the given segments. -/
def fileAddress (pieces : List Text) : Url where
  scheme := "file".toList
  authority := some []
  path := joinSegments pieces
  query := none
  fragment := none

lemma text_fileAddress (pieces : List Text) :
    (fileAddress pieces).text = "file".toList ++ ':' :: '/' :: '/' :: joinSegments pieces := by
  simp [Url.text, body, front, back, fileAddress]

/-- The address of a file is read back as it was written. -/
theorem parse_fileAddress {pieces : List Text} (h : ∀ piece ∈ pieces, IsWritten piece) :
    parse (fileAddress pieces).text = .ok (fileAddress pieces) := by
  have hscheme : IsScheme "file".toList := ⟨by decide, by decide, by decide⟩
  have hstands : Percent.Stands pathSet ('/' :: '/' :: joinSegments pieces) :=
    Percent.stands_cons.mpr ⟨isPlain_slash, Percent.stands_cons.mpr ⟨isPlain_slash,
      stands_joinSegments fun piece hpiece => (h piece hpiece).stands⟩⟩
  have hread : readFile ('/' :: '/' :: joinSegments pieces) = .ok ([], joinSegments pieces) := by
    have hplace : ∀ t, behindSlash? ('/' :: t) = some t := fun t => rfl
    have htake : (joinSegments pieces).takeWhile (!SchemeKind.file.isSlash ·) = [] := by
      rw [joinSegments, List.takeWhile_cons_of_neg (by decide)]
    unfold readFile
    rw [hplace]
    dsimp only
    rw [hplace]
    dsimp only
    rw [htake]
    exact congrArg Except.ok (readFilePath_joinSegments h)
  rw [text_fileAddress, parse_of_isScheme hscheme, dropEndWhile_of_stands hstands, readRest,
    placeOf_of_stands hstands, tailOf_of_stands hstands, readPlace, if_pos (by decide), hread]
  rfl

/-! ## Addresses of paths -/

lemma componentSet_of_high {b : UInt8} (h : 0x80 ≤ b) : componentSet b = true :=
  Percent.adding_of_set (Percent.adding_of_set (Percent.controls_of_high h) _) _

/-- What is escaped in a part of a path comes back. -/
lemma decode_component (s : Name) :
    Percent.decode (Percent.encodeBytes componentSet s) = s :=
  Percent.decode_encodeBytes (by decide) (fun _ => componentSet_of_high) s

/-- A part of a path is written without anything that a path escapes. -/
lemma stands_component (s : Name) :
    Percent.Stands pathSet (Percent.encodeBytes componentSet s) :=
  Percent.stands_encodeBytes (fun _ hb => Percent.adding_of_set hb _)
    (fun _ => componentSet_of_high) (by decide) (by decide) s

/-- A character that is an ASCII character in lower case is one of those that become it. -/
lemma toNat_lt_of_toLower {c : Char} (h : c.toLower.toNat < 0x80) : c.toNat < 0x80 := by
  by_contra hge
  have hnot : ¬(c.val ≥ 'A'.val ∧ c.val ≤ 'Z'.val) := fun hupper =>
    hge (Nat.lt_of_le_of_lt (UInt32.le_iff_toNat_le.mp hupper.2) (by decide))
  have hself : c.toLower = c := dif_neg hnot
  rw [hself] at h
  exact hge h

/-- A character in lower case that is no letter is the character itself, and else one of two. -/
lemma eq_of_toLower {c d : Char} (hd : d.toNat < 0x80) (h : c.toLower = d) :
    c = d ∨ c = d.toUpper := by
  have hfacts : ∀ n < 0x80, ∀ d, (Char.ofNat n).toLower = d →
      Char.ofNat n = d ∨ Char.ofNat n = d.toUpper := by
    have hself : ∀ n < 0x80, Char.ofNat n = (Char.ofNat n).toLower ∨
        Char.ofNat n = (Char.ofNat n).toLower.toUpper := by decide
    rintro n hn d rfl
    exact hself n hn
  exact of_forall_ascii (P := fun c => ∀ d, c.toLower = d → c = d ∨ c = d.toUpper) hfacts
    (toNat_lt_of_toLower (h ▸ hd)) d h

/-- A point, written as it is or with digits of either case, is read as a point. -/
lemma exists_decode_of_lower {t u p : Text} (hp : p = ['.'] ∨ p = ['%', '2', 'e'])
    (h : Text.lower t = p ++ u) :
    ∃ s, Percent.decode t = 0x2E :: Percent.decode s ∧ Text.lower s = u := by
  rcases hp with rfl | rfl
  · obtain ⟨c, s, rfl, hc, hs⟩ := List.map_eq_cons_iff.mp h
    obtain rfl : c = '.' := (eq_of_toLower (by decide) hc).elim id id
    exact ⟨s, Percent.decodeBytes_cons_of_ne (by decide) _, hs⟩
  · obtain ⟨c, t, rfl, hc, h⟩ := List.map_eq_cons_iff.mp h
    obtain ⟨d, t, rfl, hd, h⟩ := List.map_eq_cons_iff.mp h
    obtain ⟨e, s, rfl, he, hs⟩ := List.map_eq_cons_iff.mp h
    obtain rfl : c = '%' := (eq_of_toLower (by decide) hc).elim id id
    obtain rfl : d = '2' := (eq_of_toLower (by decide) hd).elim id id
    refine ⟨s, ?_, hs⟩
    obtain rfl | rfl : e = 'e' ∨ e = 'E' := eq_of_toLower (by decide) he
    · rfl
    · rfl

lemma decode_of_isSingleDot {piece : Text} (h : isSingleDot piece = true) :
    Percent.decode piece = Name.dot := by
  obtain ⟨p, hp, hlower⟩ : ∃ p : Text, (p = ['.'] ∨ p = ['%', '2', 'e']) ∧
      Text.lower piece = p ++ [] := by
    simp only [isSingleDot, List.any_cons, List.any_nil, Bool.or_false, Bool.or_eq_true,
      beq_iff_eq] at h
    rcases h with h | h
    · exact ⟨_, .inl rfl, h⟩
    · exact ⟨_, .inr rfl, h⟩
  obtain ⟨s, hs, hnil⟩ := exists_decode_of_lower hp hlower
  rw [hs, List.map_eq_nil_iff.mp hnil]
  rfl

lemma decode_of_isDoubleDot {piece : Text} (h : isDoubleDot piece = true) :
    Percent.decode piece = Name.dotDot := by
  obtain ⟨p, q, hp, hq, hlower⟩ : ∃ p q : Text, (p = ['.'] ∨ p = ['%', '2', 'e']) ∧
      (q = ['.'] ∨ q = ['%', '2', 'e']) ∧ Text.lower piece = p ++ (q ++ []) := by
    simp only [isDoubleDot, List.any_cons, List.any_nil, Bool.or_false, Bool.or_eq_true,
      beq_iff_eq] at h
    rcases h with h | h | h | h
    · exact ⟨_, _, .inl rfl, .inl rfl, h⟩
    · exact ⟨_, _, .inl rfl, .inr rfl, h⟩
    · exact ⟨_, _, .inr rfl, .inl rfl, h⟩
    · exact ⟨_, _, .inr rfl, .inr rfl, h⟩
  obtain ⟨s, hs, hrest⟩ := exists_decode_of_lower hp hlower
  obtain ⟨r, hr, hnil⟩ := exists_decode_of_lower hq hrest
  rw [hs, hr, List.map_eq_nil_iff.mp hnil]
  rfl

/-- A part of a path is written so that it is read as it is. -/
lemma isWritten_component {s : Name} (h : Name.IsProper s) :
    IsWritten (Percent.encodeBytes componentSet s) := by
  have hsub : ∀ b, Percent.adding pathSet ['/', '\\'] b = true → componentSet b = true := by
    intro b hb
    simp only [componentSet, Percent.adding, List.any_cons, List.any_nil, Bool.or_false,
      Bool.or_eq_true] at hb ⊢
    rcases hb with hpath | hslash | hback
    · exact .inl hpath
    · exact .inr (.inl hslash)
    · exact .inr (.inr (.inr hback))
  have hstands : Percent.Stands (Percent.adding pathSet ['/', '\\'])
      (Percent.encodeBytes componentSet s) :=
    Percent.stands_encodeBytes hsub (fun _ => componentSet_of_high) (by decide) (by decide) s
  have hslash : ∀ n < 0x80,
      Percent.adding pathSet ['/', '\\'] (UInt8.ofNat (Char.ofNat n).toNat) = false →
        SchemeKind.file.isSlash (Char.ofNat n) = false := by
    decide
  constructor
  · obtain ⟨b, rest, rfl⟩ := List.exists_cons_of_ne_nil h.ne_nil
    rw [Percent.encodeBytes_cons]
    split <;> simp [Percent.escape]
  · intro c hc
    exact (hstands c hc).mono fun b hb => Percent.adding_of_set hb _
  · intro c hc
    exact of_forall_ascii (P := fun c => Percent.adding pathSet ['/', '\\']
      (UInt8.ofNat c.toNat) = false → SchemeKind.file.isSlash c = false) hslash (hstands c hc).1
      (hstands c hc).2
  · rw [Bool.eq_false_iff]
    intro hdot
    exact h.ne_dot (by rw [← decode_component s, decode_of_isSingleDot hdot])
  · rw [Bool.eq_false_iff]
    intro hdot
    exact h.ne_dotDot (by rw [← decode_component s, decode_of_isDoubleDot hdot])

/-- The segments of the address of a path. -/
def writtenNames (names : List Name) : List Text :=
  names.map (Percent.encodeBytes componentSet)

section

variable {names : List Name} (h : ∀ s ∈ names, Name.IsProper s)

include h

lemma isWritten_of_mem_writtenNames : ∀ piece ∈ writtenNames names, IsWritten piece := by
  intro piece hpiece
  obtain ⟨s, hs, rfl⟩ := List.mem_map.mp hpiece
  exact isWritten_component (h s hs)

/-- The address of a path without dots is that of its names. -/
lemma ofPath?_ofSegments :
    ofPath? (Path.ofSegments true names) = some (fileAddress (writtenNames names)) := by
  rw [ofPath?, Path.isAbsolute_ofSegments_true, if_pos rfl, Path.components_ofSegments h]
  rfl

/-- The path of an address is the path that the address was made from; behind what looks like the
root of a drive it has a separator. -/
theorem toPath?_fileAddress :
    (fileAddress (writtenNames names)).toPath? = some
      (if endsInDrive (Path.ofSegments true names).bytes
        then ⟨(Path.ofSegments true names).bytes ++ [Path.slash]⟩
        else Path.ofSegments true names) := by
  have hbytes : (((List.intercalate ['/'] (writtenNames names)).splitOn '/').map
      fun s => Path.slash :: Percent.decode s).flatten = (Path.ofSegments true names).bytes := by
    cases names with
    | nil => rfl
    | cons s rest =>
      have hslash : ∀ piece ∈ writtenNames (s :: rest), '/' ∉ piece := by
        intro piece hpiece hin
        have hfalse := (isWritten_of_mem_writtenNames h piece hpiece).not_slash '/' hin
        cases hfalse
      have hdecode : (writtenNames (s :: rest)).map (fun s => Path.slash :: Percent.decode s) =
          (s :: rest).map (Path.slash :: ·) := by
        rw [writtenNames, List.map_map, List.map_inj_left]
        intro t _
        rw [Function.comp_apply, decode_component]
      rw [List.splitOn_intercalate '/' hslash (List.cons_ne_nil _ _), hdecode,
        flatten_map_cons Path.slash (List.cons_ne_nil s rest)]
      rfl
  have hhost : ((fileAddress (writtenNames names)).authority.getD []).isEmpty = true := rfl
  unfold toPath?
  rw [hhost, if_pos rfl]
  dsimp only [fileAddress, joinSegments]
  split
  · next rest heq =>
    rw [← (List.cons.inj heq).2, hbytes]
    split <;> rfl
  · next hne => exact absurd rfl (hne _)

end

end Url

namespace Percent

/-! ## Names written as segments -/

/-- Whatever is escaped in a path is escaped in a segment. -/
lemma stands_encodeSegment (name : Text) : Stands Url.pathSet (encodeSegment name) := by
  have hsub : ∀ b, Url.pathSet b = true → segmentSet b = true := by
    intro b hb
    simp only [Url.pathSet, segmentSet, adding, List.any_cons, List.any_nil, Bool.or_false,
      Bool.or_eq_true] at hb ⊢
    tauto
  exact stands_encodeBytes hsub (fun _ hb => adding_of_set (controls_of_high hb) _) (by decide)
    (by decide) (Utf8.encode name)

lemma slash_notMem_encodeSegment {name : Text} (h : '/' ∉ name) : '/' ∉ encodeSegment name := by
  intro hin
  have hhigh : ∀ b, 0x80 ≤ b → segmentSet b = true := fun _ hb =>
    adding_of_set (controls_of_high hb) _
  rcases mem_encode hhigh hin with hmark | ⟨n, hn, hdigit⟩ | hname
  · cases hmark
  · have hne : ∀ n < 16, '/' ≠ hexDigit n := by decide
    exact hne n hn hdigit
  · exact h hname

lemma encodeSegment_ne_nil {name : Text} (h : name ≠ []) : encodeSegment name ≠ [] := by
  intro hnil
  have hbytes : Utf8.encode name ≠ [] := fun hnone => h (Utf8.encode_eq_nil_iff.mp hnone)
  obtain ⟨b, bs, hb⟩ := List.exists_cons_of_ne_nil hbytes
  rw [encodeSegment, encode, hb, encodeBytes_cons, List.append_eq_nil_iff] at hnil
  split at hnil
  · cases hnil.1
  · cases hnil.1

/-- A name comes back from its written form. -/
lemma decode_encodeSegment (name : Text) : decode (encodeSegment name) = Utf8.encode name :=
  decode_encodeBytes (by decide) (fun _ hb => adding_of_set (controls_of_high hb) _) _

end Percent

end ContentMounts
