import ContentMounts.Proofs.Path.Spelled
import ContentMounts.Proofs.Url.Below

/-!
# What reading does to a path

The path of a file address is read piece by piece. A piece without tabs and line ends that spells no
dots is laid on the others and keeps what it spells (`FileTrail.foldl_read_of_isKept`), so that a
path of such pieces has the segments that it spells (`segments_readFilePath`). The only exception is
the letter of a drive in first place, whose bar becomes a colon (`segments_readFilePath_of_bar`).

Nothing that is read adds to the bulk of the path, and each tab, line end and backslash takes from
it (`bulk_readFilePath_le`). So a path in which there are such characters is never read as what it
spells.
-/

namespace ContentMounts

namespace Url

/-! ## Escapes of a path -/

lemma pathSet_of_high {b : UInt8} (h : 0x80 ≤ b) : pathSet b = true :=
  Percent.adding_of_set (Percent.controls_of_high h) _

/-- Nothing that is escaped in a path is part of an escape. -/
lemma hexByte?_of_pathSet {b : UInt8} (h : pathSet b = true) : Percent.hexByte? b = none := by
  have hfacts : ∀ n < 256, pathSet (UInt8.ofNat n) = true →
      Percent.hexByte? (UInt8.ofNat n) = none := by
    decide +kernel
  rw [← UInt8.ofNat_toNat (x := b)] at h ⊢
  exact hfacts b.toNat b.toNat_lt h

/-- A piece of a path is read as what it spells. -/
lemma spelled_encode (piece : Text) :
    Path.spelled (Percent.encode pathSet piece) = Path.spelled piece :=
  congrArg Path.mk (Percent.decode_encode_of_digits (fun _ => pathSet_of_high) (by decide)
    (fun _ => hexByte?_of_pathSet) piece)

lemma bulk_encode (piece : Text) :
    Path.bulk (Percent.encode pathSet piece) = Path.bulk piece :=
  congrArg (fun p : Path => Path.bulkOf p.bytes) (spelled_encode piece)

/-! ## Pieces that are kept -/

/-- A piece of a path that is read as it is: nothing in it is left out, and it spells no dots. -/
structure IsKept (piece : Text) : Prop where
  no_break : ∀ c ∈ piece, isBreak c = false
  proper : ∀ s ∈ (Path.spelled piece).segments, Name.IsProper s

lemma Trail.read_of_isKept {piece : Text} (h : IsKept piece) (t : Trail) :
    t.read piece = ⟨Percent.encode pathSet piece :: t.stack, false⟩ := by
  have hspelled := congrArg Path.bytes (spelled_encode piece)
  have hdouble : isDoubleDot (Percent.encode pathSet piece) = false := by
    rw [Bool.eq_false_iff]
    intro hdot
    have hname : Path.spelled piece = ⟨Name.dotDot⟩ := by
      rw [← spelled_encode piece, Path.spelled, decode_of_isDoubleDot hdot]
    exact (h.proper Name.dotDot (by rw [hname]; decide)).ne_dotDot rfl
  have hsingle : isSingleDot (Percent.encode pathSet piece) = false := by
    rw [Bool.eq_false_iff]
    intro hdot
    have hname : Path.spelled piece = ⟨Name.dot⟩ := by
      rw [← spelled_encode piece, Path.spelled, decode_of_isSingleDot hdot]
    exact (h.proper Name.dot (by rw [hname]; decide)).ne_dot rfl
  unfold Trail.read
  dsimp only
  rw [hdouble, hsingle, if_neg Bool.false_ne_true, if_neg Bool.false_ne_true]

/-- Pieces that are kept are laid one on the other. -/
lemma FileTrail.foldl_read_of_isKept {pieces : List Text} (h : ∀ piece ∈ pieces, IsKept piece)
    {host : Text} {stack : List Text} (hstack : stack ≠ []) :
    pieces.foldl FileTrail.read ⟨host, ⟨stack, false⟩⟩ =
      ⟨host, ⟨(pieces.map (Percent.encode pathSet)).reverse ++ stack, false⟩⟩ :=
  FileTrail.foldl_read_of_laid
    (fun piece hpiece => withoutBreaks_eq_self (h piece hpiece).no_break)
    (fun piece hpiece => Trail.read_of_isKept (h piece hpiece)) hstack

/-- What stands between the letter of a drive and the rest of its segment. -/
lemma exists_of_cutDrive? {segment drive rest : Text}
    (h : cutDrive? segment = some (drive, rest)) :
    ∃ before c between b behind, segment = before ++ c :: (between ++ ':' :: b :: behind) ∧
      (∀ d ∈ before, isBreak d = true) ∧ (∀ d ∈ between, isBreak d = true) ∧ isBreak b = true ∧
      c.isAlpha = true ∧ drive = [c, ':'] ∧ rest = withoutBreaks behind := by
  have htake : ∀ t : Text, ∀ d ∈ t.takeWhile isBreak, isBreak d = true :=
    fun t d hd => List.mem_takeWhile_imp hd
  unfold cutDrive? at h
  split at h
  · cases h
  · next c behind hbefore =>
    split at h
    · next b rest' hbetween =>
      dsimp only at h
      split at h
      · next hdrive =>
        cases h
        simp only [Bool.and_eq_true] at hdrive
        refine ⟨segment.takeWhile isBreak, c, behind.takeWhile isBreak, b, rest', ?_,
          htake segment, htake behind, hdrive.1.2, hdrive.1.1, rfl, rfl⟩
        rw [← hbetween, List.takeWhile_append_dropWhile, ← hbefore,
          List.takeWhile_append_dropWhile]
      · cases h
    · cases h

/-- A piece without tabs and line ends is not cut behind the letter of a drive. -/
lemma cutDrive?_eq_none {piece : Text} (h : ∀ c ∈ piece, isBreak c = false) :
    cutDrive? piece = none := by
  rw [Option.eq_none_iff_forall_ne_some]
  rintro ⟨drive, rest⟩ hcut
  obtain ⟨before, c, between, b, behind, rfl, -, -, hb, -⟩ := exists_of_cutDrive? hcut
  rw [h b (by simp)] at hb
  cases hb

lemma exists_of_isDriveLetter {t : Text} (h : isDriveLetter t = true) :
    ∃ c d, t = [c, d] ∧ c.isAlpha = true ∧ (d = ':' ∨ d = '|') := by
  unfold isDriveLetter at h
  split at h
  · next c d => exact ⟨c, d, rfl, by simpa using h⟩
  · cases h

/-- A drive letter is written as it is. -/
lemma isWritten_drive {c : Char} (hc : c.isAlpha = true) : IsWritten [c, ':'] := by
  have hfacts : ∀ n < 0x80, (Char.ofNat n).isAlpha = true →
      Percent.IsPlain pathSet (Char.ofNat n) ∧ SchemeKind.file.isSlash (Char.ofNat n) = false := by
    decide
  obtain ⟨hplain, hslash⟩ := of_forall_ascii (P := fun c => c.isAlpha = true →
    Percent.IsPlain pathSet c ∧ SchemeKind.file.isSlash c = false) hfacts
    (toNat_lt_of_isSchemeChar (by simp [isSchemeChar, Char.isAlphanum, hc])) hc
  have hcolon : Char.toLower ':' = ':' := by decide
  constructor
  · simp
  · simp only [Percent.stands_cons]
    exact ⟨hplain, by decide, by simp [Percent.Stands]⟩
  · intro d hd
    simp only [List.mem_cons, List.not_mem_nil, or_false] at hd
    rcases hd with rfl | rfl
    · exact hslash
    · decide
  · simp [isSingleDot, Text.lower, hcolon]
  · simp [isDoubleDot, Text.lower, hcolon]

/-- A piece in first place is the letter of a drive, or a piece like any other. -/
lemma FileTrail.read_empty {piece : Text} (h : ∀ c ∈ piece, isBreak c = false) :
    FileTrail.read ⟨[], Trail.empty⟩ piece =
      ⟨[], Trail.empty.read (if isDriveLetter piece then piece.take 1 ++ [':'] else piece)⟩ := by
  unfold FileTrail.read
  dsimp only
  rw [cutDrive?_eq_none h, withoutBreaks_eq_self h,
    if_pos (show Trail.empty.stack.isEmpty = true from rfl)]
  dsimp only
  split <;> rfl

/-- The letter of a drive in first place is written with a colon. -/
lemma FileTrail.read_drive {c d : Char} (hc : c.isAlpha = true) (hd : d = ':' ∨ d = '|') :
    FileTrail.read ⟨[], Trail.empty⟩ [c, d] = ⟨[], ⟨[[c, ':']], false⟩⟩ := by
  have hchar : isBreak c = false :=
    (schemeChar_of_isSchemeChar (by simp [isSchemeChar, Char.isAlphanum, hc])).not_break
  have hmark : isBreak d = false := by rcases hd with rfl | rfl <;> decide
  have hnone : ∀ e ∈ [c, d], isBreak e = false := by simp [hchar, hmark]
  have hdrive : isDriveLetter [c, d] = true := by
    rcases hd with rfl | rfl <;> simp [isDriveLetter, hc]
  rw [FileTrail.read_empty hnone, if_pos hdrive]
  exact congrArg (FileTrail.mk []) (Trail.read_of_isWritten (isWritten_drive hc) _)

/-- A piece that is kept is laid down in first place as well, but for the letter of a drive with a
bar. -/
lemma FileTrail.read_first {piece : Text} (h : IsKept piece)
    (hbar : ∀ c, c.isAlpha = true → piece ≠ [c, '|']) :
    FileTrail.read ⟨[], Trail.empty⟩ piece = ⟨[], ⟨[Percent.encode pathSet piece], false⟩⟩ := by
  cases hdrive : isDriveLetter piece with
  | false =>
    rw [FileTrail.read_empty h.no_break, hdrive, if_neg Bool.false_ne_true, Trail.read_of_isKept h]
    rfl
  | true =>
    obtain ⟨c, d, rfl, hc, hd⟩ := exists_of_isDriveLetter hdrive
    rcases hd with rfl | rfl
    · rw [FileTrail.read_drive hc (.inl rfl), Percent.encode_of_stands (isWritten_drive hc).stands]
    · exact absurd rfl (hbar c hc)

/-! ## Paths that are kept -/

/-- A path has the segments of the pieces that were read. -/
lemma FileTrail.segments_path (f : FileTrail) :
    (Path.spelled f.path).segments =
      f.trail.segments.flatMap fun piece => (Path.spelled piece).segments := by
  rw [FileTrail.path, Path.segments_spelled_slash, Path.segments_spelled_dropWhile, joinSegments,
    Path.segments_spelled_slash, Path.segments_spelled_intercalate]

/-- Behind a piece that was laid down come the pieces that are kept. -/
lemma readFilePath_of_first {t first piece : Text} {pieces : List Text}
    (hsplit : t.splitOnP SchemeKind.file.isSlash = first :: pieces)
    (hfirst : FileTrail.read ⟨[], Trail.empty⟩ first = ⟨[], ⟨[piece], false⟩⟩)
    (hpieces : ∀ piece ∈ pieces, IsKept piece) :
    (readFilePath [] t).1 = [] ∧ (Path.spelled (readFilePath [] t).2).segments =
      (Path.spelled piece).segments ++
        pieces.flatMap fun piece => (Path.spelled piece).segments := by
  have hread : readSegments [] t =
      ⟨[], ⟨(pieces.map (Percent.encode pathSet)).reverse ++ [piece], false⟩⟩ := by
    rw [readSegments, hsplit, List.foldl_cons, hfirst,
      FileTrail.foldl_read_of_isKept hpieces (List.cons_ne_nil _ _)]
  have hsegments : (readSegments [] t).trail.segments =
      piece :: pieces.map (Percent.encode pathSet) := by
    rw [hread, Trail.segments, if_neg Bool.false_ne_true, List.reverse_append,
      List.reverse_reverse, List.reverse_singleton, List.singleton_append]
  rw [readFilePath_eq]
  refine ⟨by rw [hread], ?_⟩
  dsimp only
  rw [FileTrail.segments_path, hsegments, List.flatMap_cons, List.flatMap_map]
  simp only [spelled_encode]

/-- Whether a path, given without its first slash, starts with the letter of a drive and a bar. -/
def startsWithBar (t : Text) : Bool :=
  match t with
  | c :: '|' :: rest => c.isAlpha && rest.head?.all (· == '/')
  | _ => false

lemma startsWithBar_slash (t : Text) : startsWithBar ('/' :: t) = false := by
  unfold startsWithBar
  split
  · next c rest heq =>
    obtain ⟨rfl, -⟩ := List.cons.inj heq
    rfl
  · rfl

lemma startsWithBar_iff {t : Text} :
    startsWithBar t = true ↔
      ∃ c pieces, c.isAlpha = true ∧ t.splitOn '/' = [c, '|'] :: pieces := by
  constructor
  · intro h
    unfold startsWithBar at h
    split at h
    · next c rest =>
      obtain ⟨hc, hrest⟩ := Bool.and_eq_true _ _ |>.mp h
      have hne : c ≠ '/' := by
        rintro rfl
        cases hc
      have hfront : ∀ d ∈ [c, '|'], (d == '/') = false := by simp [hne]
      cases rest with
      | nil => exact ⟨c, [], hc, List.splitOnP_eq_singleton hfront⟩
      | cons d rest =>
        obtain rfl : d = '/' := by simpa using hrest
        exact ⟨c, rest.splitOn '/', hc,
          List.splitOnP_append_cons_of_forall_mem hfront '/' (by decide) rest⟩
    · cases h
  · rintro ⟨c, pieces, hc, hsplit⟩
    have hwhole : ['/'].intercalate (t.splitOn '/') = t := List.intercalate_splitOn '/'
    rw [← hwhole, hsplit]
    cases pieces with
    | nil => simp [startsWithBar, hc]
    | cons next pieces => simp [List.intercalate_cons_cons, startsWithBar, hc]

section

variable {t : Text} (hplain : ∀ c ∈ t, isBreak c = false ∧ c ≠ '\\')
  (hproper : ∀ s ∈ (Path.spelled t).segments, Name.IsProper s)

include hplain

/-- Without backslashes a path is split at its slashes. -/
lemma splitOnP_isSlash : t.splitOnP SchemeKind.file.isSlash = t.splitOn '/' := by
  apply splitOnP_congr
  intro c hc
  simp [SchemeKind.isSlash, (hplain c hc).2]

include hproper

lemma isKept_of_mem_splitOn : ∀ piece ∈ t.splitOn '/', IsKept piece := by
  intro piece hpiece
  constructor
  · intro c hc
    exact (hplain c (mem_of_mem_splitOn hpiece hc)).1
  · intro s hs
    apply hproper s
    rw [Path.segments_spelled_eq_flatMap]
    exact List.mem_flatMap.mpr ⟨piece, hpiece, hs⟩

/-- A path without special characters and dots is read as what it spells. -/
theorem segments_readFilePath (hbar : startsWithBar t = false) :
    (readFilePath [] t).1 = [] ∧
      (Path.spelled (readFilePath [] t).2).segments = (Path.spelled t).segments := by
  have hkept := isKept_of_mem_splitOn hplain hproper
  obtain ⟨first, pieces, hsplit⟩ := List.exists_cons_of_ne_nil (List.splitOn_ne_nil '/' t)
  have hfirst : FileTrail.read ⟨[], Trail.empty⟩ first =
      ⟨[], ⟨[Percent.encode pathSet first], false⟩⟩ := by
    apply FileTrail.read_first (hkept first (hsplit ▸ List.mem_cons_self))
    rintro c hc rfl
    rw [startsWithBar_iff.mpr ⟨c, pieces, hc, hsplit⟩] at hbar
    cases hbar
  rw [Path.segments_spelled_eq_flatMap t, hsplit, List.flatMap_cons, ← spelled_encode first]
  rw [← splitOnP_isSlash hplain] at hsplit hkept
  exact readFilePath_of_first hsplit hfirst fun piece hpiece =>
    hkept piece (hsplit ▸ List.mem_cons_of_mem first hpiece)

/-- The bar behind the letter of a drive is not kept. -/
theorem segments_readFilePath_ne (hbar : startsWithBar t = true) :
    (readFilePath [] t).1 = [] ∧
      (Path.spelled (readFilePath [] t).2).segments ≠ (Path.spelled t).segments := by
  have hkept := isKept_of_mem_splitOn hplain hproper
  obtain ⟨c, pieces, hc, hsplit⟩ := startsWithBar_iff.mp hbar
  rw [Path.segments_spelled_eq_flatMap t, hsplit, List.flatMap_cons]
  rw [← splitOnP_isSlash hplain] at hsplit hkept
  obtain ⟨hhost, hsegments⟩ := readFilePath_of_first hsplit (FileTrail.read_drive hc (.inr rfl))
    fun piece hpiece => hkept piece (hsplit ▸ List.mem_cons_of_mem _ hpiece)
  refine ⟨hhost, ?_⟩
  rw [hsegments]
  have hfacts : ∀ n < 0x80, (Char.ofNat n).isAlpha = true →
      (Path.spelled [Char.ofNat n, ':']).segments ≠ (Path.spelled [Char.ofNat n, '|']).segments := by
    decide +kernel
  intro heq
  exact of_forall_ascii (P := fun c => c.isAlpha = true →
    (Path.spelled [c, ':']).segments ≠ (Path.spelled [c, '|']).segments) hfacts
    (toNat_lt_of_isSchemeChar (by simp [isSchemeChar, Char.isAlphanum, hc])) hc
    (List.append_cancel_right heq)

end

/-! ## What reading takes from a path -/

lemma isCut_of_isBreak {c : Char} (h : isBreak c = true) : Percent.IsCut c ∧ c ≠ '/' := by
  simp only [isBreak, List.contains_cons, List.contains_nil, Bool.or_false, Bool.or_eq_true,
    beq_iff_eq] at h
  rcases h with rfl | rfl | rfl
  · exact ⟨⟨by decide, by decide, by decide⟩, by decide⟩
  · exact ⟨⟨by decide, by decide, by decide⟩, by decide⟩
  · exact ⟨⟨by decide, by decide, by decide⟩, by decide⟩

lemma bulk_cons_of_isBreak {c : Char} (h : isBreak c = true) (t : Text) :
    Path.bulk (c :: t) = Path.bulk t + 1 := by
  obtain ⟨hcut, hslash⟩ := isCut_of_isBreak h
  exact Path.bulk_cons_of_ne hcut.low hcut.ne_percent hslash t

/-- Each tab and line end that is left out takes from the bulk. -/
lemma bulk_withoutBreaks_le (t : Text) :
    Path.bulk (withoutBreaks t) + t.countP isBreak ≤ Path.bulk t := by
  -- what stands in front may open an escape that ends behind a tab
  suffices hfront : ∀ front, Path.bulk (front ++ withoutBreaks t) + t.countP isBreak ≤
      Path.bulk (front ++ t) from hfront []
  induction t with
  | nil =>
    intro front
    exact Nat.le_refl _
  | cons c t ih =>
    intro front
    by_cases hc : isBreak c = true
    · have hleft : withoutBreaks (c :: t) = withoutBreaks t := by simp [withoutBreaks, hc]
      have hjoin := Path.bulk_append_le front (withoutBreaks t)
      have hrest := ih []
      rw [hleft, List.countP_cons_of_pos hc, Path.bulk_append_cons (isCut_of_isBreak hc).1,
        bulk_cons_of_isBreak hc]
      rw [List.nil_append, List.nil_append] at hrest
      omega
    · have hkeep : withoutBreaks (c :: t) = c :: withoutBreaks t := by simp [withoutBreaks, hc]
      have hnext := ih (front ++ [c])
      rw [hkeep, List.countP_cons_of_neg hc]
      simpa using hnext

/-- Tabs and line ends in front of a text add what they are. -/
lemma bulk_append_of_isBreak {before : Text} (h : ∀ c ∈ before, isBreak c = true) (t : Text) :
    Path.bulk (before ++ t) = before.length + Path.bulk t := by
  induction before with
  | nil => simp
  | cons c before ih =>
    rw [List.cons_append, bulk_cons_of_isBreak (h c List.mem_cons_self),
      ih fun d hd => h d (List.mem_cons_of_mem c hd), List.length_cons]
    omega

namespace Trail

/-- The bulk of the segments on a stack. -/
def bulk (t : Trail) : Nat := (t.stack.map Path.bulk).sum

/-- A segment adds no more than its bulk. -/
lemma bulk_read_le (t : Trail) (segment : Text) :
    (t.read segment).bulk ≤ t.bulk + Path.bulk segment := by
  have hascend : ∀ stack : List Text,
      ((ascend stack).map Path.bulk).sum ≤ (stack.map Path.bulk).sum := by
    intro stack
    cases stack with
    | nil => exact Nat.le_refl _
    | cons s rest =>
      rw [ascend]
      split
      · exact Nat.le_refl _
      · simp
  unfold read
  dsimp only
  split
  · exact (hascend t.stack).trans (Nat.le_add_right _ _)
  · split
    · exact Nat.le_add_right _ _
    · rw [bulk, List.map_cons, List.sum_cons, bulk_encode, Nat.add_comm]
      rfl

end Trail

lemma bulk_cons_of_isAlpha {c : Char} (h : c.isAlpha = true) (t : Text) :
    Path.bulk (c :: t) = Path.bulk t + 1 := by
  have hfacts : ∀ n < 0x80, (Char.ofNat n).isAlpha = true →
      Char.ofNat n ≠ '%' ∧ Char.ofNat n ≠ '/' := by
    decide
  have hlow := toNat_lt_of_isSchemeChar (c := c) (by simp [isSchemeChar, Char.isAlphanum, h])
  obtain ⟨hmark, hslash⟩ := of_forall_ascii (P := fun c => c.isAlpha = true → c ≠ '%' ∧ c ≠ '/')
    hfacts hlow h
  exact Path.bulk_cons_of_ne hlow hmark hslash t

lemma bulk_colon (t : Text) : Path.bulk (':' :: t) = Path.bulk t + 1 :=
  Path.bulk_cons_of_ne (by decide) (by decide) (by decide) t

/-- A drive letter that is cut off takes the characters between it and the rest away. -/
lemma bulk_of_cutDrive? {segment drive rest : Text} (h : cutDrive? segment = some (drive, rest)) :
    Path.bulk rest + Path.bulk drive + segment.countP isBreak ≤ Path.bulk segment := by
  obtain ⟨before, c, between, b, behind, rfl, hbefore, hbetween, hb, hc, rfl, rfl⟩ :=
    exists_of_cutDrive? h
  have hleft := bulk_withoutBreaks_le behind
  have hletter : isBreak c = false :=
    (schemeChar_of_isSchemeChar (by simp [isSchemeChar, Char.isAlphanum, hc])).not_break
  have hcolon : isBreak ':' = false := by decide
  have hbulk : Path.bulk (before ++ c :: (between ++ ':' :: b :: behind)) =
      before.length + between.length + Path.bulk behind + 3 := by
    rw [bulk_append_of_isBreak hbefore, bulk_cons_of_isAlpha hc, bulk_append_of_isBreak hbetween,
      bulk_colon, bulk_cons_of_isBreak hb]
    omega
  have hcount : (before ++ c :: (between ++ ':' :: b :: behind)).countP isBreak =
      before.length + between.length + behind.countP isBreak + 1 := by
    rw [List.countP_append, List.countP_cons_of_neg (by simp [hletter]), List.countP_append,
      List.countP_cons_of_neg (by simp [hcolon]), List.countP_cons_of_pos hb,
      List.countP_eq_length.mpr hbefore, List.countP_eq_length.mpr hbetween]
    omega
  rw [hbulk, hcount, bulk_cons_of_isAlpha hc, bulk_colon, Path.bulk_nil]
  omega

namespace FileTrail

/-- A segment adds no more than its bulk, less the tabs and line ends in it. -/
lemma bulk_read_le (f : FileTrail) (segment : Text) :
    (f.read segment).trail.bulk + segment.countP isBreak ≤
      f.trail.bulk + Path.bulk segment := by
  have hleft := bulk_withoutBreaks_le segment
  have hplain := f.trail.bulk_read_le (withoutBreaks segment)
  unfold read
  dsimp only
  split
  · next hempty =>
    split
    · next drive rest hcut =>
      have hparts := bulk_of_cutDrive? hcut
      have hbulk : Trail.bulk ⟨[Percent.encode pathSet rest, drive], false⟩ =
          Path.bulk rest + Path.bulk drive := by
        simp [Trail.bulk, bulk_encode]
      dsimp only
      omega
    · split
      · next hdrive =>
        have hletter : Path.bulk ((withoutBreaks segment).take 1 ++ [':']) =
            Path.bulk (withoutBreaks segment) := by
          obtain ⟨c, d, htext, hc, hd⟩ := exists_of_isDriveLetter hdrive
          rw [htext, List.take_succ_cons, List.take_zero, List.singleton_append,
            bulk_cons_of_isAlpha hc, bulk_cons_of_isAlpha hc]
          rcases hd with rfl | rfl <;> rfl
        have hread := Trail.empty.bulk_read_le ((withoutBreaks segment).take 1 ++ [':'])
        have hempty : Trail.empty.bulk = 0 := rfl
        dsimp only
        omega
      · dsimp only
        omega
  · dsimp only
    omega

lemma bulk_foldl_read_le (pieces : List Text) (f : FileTrail) :
    (pieces.foldl read f).trail.bulk + (pieces.map (List.countP isBreak)).sum ≤
      f.trail.bulk + (pieces.map Path.bulk).sum := by
  induction pieces generalizing f with
  | nil => exact Nat.le_refl _
  | cons piece pieces ih =>
    have hpiece := f.bulk_read_le piece
    have hrest := ih (f.read piece)
    rw [List.foldl_cons, List.map_cons, List.map_cons, List.sum_cons, List.sum_cons]
    omega

/-- A path has the bulk of the segments that were read. -/
lemma bulk_path (f : FileTrail) : Path.bulk f.path = f.trail.bulk := by
  have hpieces : ∀ pieces : List Text,
      (pieces.flatMap fun piece => (Path.spelled piece).segments).flatten.length =
        (pieces.map Path.bulk).sum := by
    intro pieces
    induction pieces with
    | nil => rfl
    | cons piece pieces ih =>
      rw [List.flatMap_cons, List.flatten_append, List.length_append, ih,
        Path.length_flatten_segments, List.map_cons, List.sum_cons]
      rfl
  have hstack : (f.trail.segments.map Path.bulk).sum = f.trail.bulk := by
    rw [Trail.segments, List.map_reverse, List.sum_reverse]
    split
    · rw [List.map_cons, List.sum_cons, Path.bulk_nil, Nat.zero_add]
      rfl
    · rfl
  rw [← hstack, ← hpieces, ← segments_path, Path.length_flatten_segments]
  rfl

end FileTrail

/-- Whether a character of a path does not come back when the path is read: it is left out, or it is
a backslash and becomes a slash. -/
def isRespelled (c : Char) : Bool := isBreak c || c == '\\'

lemma countP_isRespelled (t : Text) :
    t.countP isRespelled = t.countP isBreak +
      ((t.filter SchemeKind.file.isSlash).map fun c => if c = '\\' then 1 else 0).sum := by
  induction t with
  | nil => rfl
  | cons c t ih =>
    have hbreak : isBreak '\\' = false := by decide
    rw [List.countP_cons, List.countP_cons, List.filter_cons, ih]
    by_cases hback : c = '\\'
    · simp [isRespelled, SchemeKind.isSlash, SchemeKind.isSpecial, hback, hbreak]
      omega
    · by_cases hslash : c = '/'
      · simp [isRespelled, SchemeKind.isSlash, hslash]
        omega
      · simp [isRespelled, SchemeKind.isSlash, SchemeKind.isSpecial, hback, hslash]
        omega

lemma eq_or_eq_of_isSlash {c : Char} (h : SchemeKind.file.isSlash c = true) :
    c = '/' ∨ c = '\\' := by
  simpa [SchemeKind.isSlash, SchemeKind.isSpecial] using h

lemma isCut_backslash : Percent.IsCut '\\' := ⟨by decide, by decide, by decide⟩

lemma bulk_backslash (t : Text) : Path.bulk ('\\' :: t) = Path.bulk t + 1 :=
  Path.bulk_cons_of_ne (by decide) (by decide) (by decide) t

/-- Each character that does not come back takes from the bulk of a path. -/
theorem bulk_readFilePath_le (host t : Text) :
    Path.bulk (readFilePath host t).2 + t.countP isRespelled ≤ Path.bulk t := by
  have hbulk := sum_map_splitOnP (p := SchemeKind.file.isSlash) (g := Path.bulk)
    (e := fun c => if c = '\\' then 1 else 0) (by
      intro before c behind hc
      rcases eq_or_eq_of_isSlash hc with rfl | rfl
      · rw [Path.bulk_append_cons Path.isCut_slash, Path.bulk_slash]
        rfl
      · rw [Path.bulk_append_cons isCut_backslash, bulk_backslash, if_pos rfl]
        omega) t
  have hbreaks := sum_map_splitOnP (p := SchemeKind.file.isSlash) (g := List.countP isBreak)
    (e := fun _ => 0) (by
      intro before c behind hc
      have hnot : isBreak c = false := by
        rcases eq_or_eq_of_isSlash hc with rfl | rfl <;> decide
      rw [List.countP_append, List.countP_cons_of_neg (by simp [hnot])]
      rfl) t
  rw [List.map_const', List.sum_replicate_nat, Nat.mul_zero, Nat.add_zero] at hbreaks
  have hcount := countP_isRespelled t
  have hread := FileTrail.bulk_foldl_read_le (t.splitOnP SchemeKind.file.isSlash)
    ⟨host, Trail.empty⟩
  have hempty : Trail.empty.bulk = 0 := rfl
  rw [readFilePath_eq, readSegments, FileTrail.bulk_path]
  dsimp only at hread hbreaks ⊢
  omega

/-! ## Host and path -/

/-- What stands from a slash on, with or without it, has no more bulk than the whole. -/
lemma bulk_behind_le (written : Text) {behind : Text}
    (h : behind.head?.all SchemeKind.file.isSlash = true) :
    Path.bulk behind ≤ Path.bulk (written ++ behind) ∧
      Path.bulk (behind.drop 1) ≤ Path.bulk (written ++ behind) := by
  cases behind with
  | nil => simp
  | cons c behind =>
    rw [List.drop_one, List.tail_cons]
    rcases eq_or_eq_of_isSlash (c := c) (by simpa using h) with rfl | rfl
    · rw [Path.bulk_append_cons Path.isCut_slash, Path.bulk_slash]
      omega
    · rw [Path.bulk_append_cons isCut_backslash, bulk_backslash]
      omega

lemma bulk_drop_takeWhile_le (place : Text) :
    Path.bulk (place.drop (place.takeWhile (!SchemeKind.file.isSlash ·)).length) ≤
        Path.bulk place ∧
      Path.bulk ((place.drop (place.takeWhile (!SchemeKind.file.isSlash ·)).length).drop 1) ≤
        Path.bulk place := by
  have hsplit := List.takeWhile_append_dropWhile (p := (!SchemeKind.file.isSlash ·)) (l := place)
  have hdrop : place.drop (place.takeWhile (!SchemeKind.file.isSlash ·)).length =
      place.dropWhile (!SchemeKind.file.isSlash ·) :=
    (congrArg (List.drop _) hsplit.symm).trans List.drop_left
  have hstart : (place.dropWhile (!SchemeKind.file.isSlash ·)).head?.all
      SchemeKind.file.isSlash = true := by
    have hnot := List.head?_dropWhile_not (!SchemeKind.file.isSlash ·) place
    cases hhead : (place.dropWhile (!SchemeKind.file.isSlash ·)).head? with
    | none => rfl
    | some c => simpa [hhead] using hnot
  have hle := bulk_behind_le (place.takeWhile (!SchemeKind.file.isSlash ·)) hstart
  rw [hsplit] at hle
  rwa [hdrop]

lemma behindSlash?_slash (t : Text) : behindSlash? ('/' :: t) = some t := rfl

/-- Behind a slash that is not followed by another one there is the path. -/
lemma readFile_bare {rest : Text} (h : behindSlash? rest = none) :
    readFile ('/' :: rest) = .ok (readFilePath [] rest) := by
  unfold readFile
  rw [behindSlash?_slash]
  dsimp only
  rw [h]
  rfl

/-- What is taken for a slash of the host, where no slash stands, takes from the bulk. -/
lemma bulk_lt_of_behindSlash? {rest place : Text} (h : behindSlash? rest = some place)
    (hhead : rest.head? ≠ some '/') : Path.bulk place < Path.bulk rest := by
  unfold behindSlash? at h
  split at h
  · next c place' hdrop =>
    split at h
    · next hc =>
      cases h
      have hbreaks : ∀ d ∈ rest.takeWhile isBreak, isBreak d = true :=
        fun d hd => List.mem_takeWhile_imp hd
      have hrest := List.takeWhile_append_dropWhile (p := isBreak) (l := rest)
      rw [hdrop] at hrest
      rw [← hrest, bulk_append_of_isBreak hbreaks]
      rcases eq_or_eq_of_isSlash hc with rfl | rfl
      · have hsome : rest.takeWhile isBreak ≠ [] := by
          intro hnil
          rw [hnil] at hrest
          exact hhead (hrest ▸ rfl)
        have hpos := List.length_pos_iff.mpr hsome
        rw [Path.bulk_slash]
        omega
      · rw [bulk_backslash]
        omega
    · cases h
  · cases h

/-- The path of an address that goes on with a host has no more bulk than what the host starts. -/
lemma bulk_readFile_le {rest place host path : Text} (h : behindSlash? rest = some place)
    (hread : readFile ('/' :: rest) = .ok (host, path)) : Path.bulk path ≤ Path.bulk place := by
  unfold readFile at hread
  rw [behindSlash?_slash] at hread
  dsimp only at hread
  rw [h] at hread
  dsimp only at hread
  have hpath : ∀ start t, readFilePath start t = (host, path) → Path.bulk path ≤ Path.bulk t := by
    intro start t heq
    have hle := bulk_readFilePath_le start t
    rw [heq] at hle
    exact (Nat.le_add_right _ _).trans hle
  split at hread
  · exact hpath _ _ (Except.ok.inj hread)
  · obtain ⟨start, -, hread⟩ := exists_of_bind_eq_ok hread
    have heq := Except.ok.inj hread
    have hbehind := bulk_drop_takeWhile_le place
    split at heq
    · exact (hpath _ _ heq).trans hbehind.1
    · exact (hpath _ _ heq).trans hbehind.2

end Url

end ContentMounts
