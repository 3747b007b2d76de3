import ContentMounts.Proofs.Url.File

/-!
# The forms of an address

An address whose scheme is not that of files has one of four forms (`Form`), and what is read of it
is told by its form. What an address ends in is never trimmed where it is read back
(`dropEndWhile_body`).
-/

namespace ContentMounts

namespace Url

/-! ## The end of an address -/

/-- What a text ends in is not trimmed. -/
def EndsVisibly (t : Text) : Prop := ∀ c, t.getLast? = some c → ¬c ≤ ' '

lemma EndsVisibly.dropEndWhile_eq {t : Text} (h : EndsVisibly t) :
    Text.dropEndWhile (· ≤ ' ') t = t := by
  rcases List.eq_nil_or_concat' t with rfl | ⟨init, c, rfl⟩
  · rfl
  · exact Text.dropEndWhile_concat_of_not (by simpa using h c List.getLast?_concat) init

lemma endsVisibly_of_forall {t : Text} (h : ∀ c ∈ t, ¬c ≤ ' ') : EndsVisibly t :=
  fun c hc => h c (List.mem_of_getLast? hc)

lemma EndsVisibly.append {t s : Text} (ht : EndsVisibly t) (hs : EndsVisibly s) :
    EndsVisibly (t ++ s) := by
  intro c hc
  rcases eq_or_ne s [] with rfl | hne
  · rw [List.append_nil] at hc
    exact ht c hc
  · rw [List.getLast?_append, Option.or_of_isSome (by simpa using hne)] at hc
    exact hs c hc

lemma endsVisibly_nil : EndsVisibly [] := fun c hc => by cases hc

lemma EndsVisibly.cons {c : Char} {t : Text} (hc : ¬c ≤ ' ') (ht : EndsVisibly t) :
    EndsVisibly (c :: t) :=
  .append (t := [c]) (endsVisibly_of_forall (List.forall_mem_singleton.mpr hc)) ht

/-- Behind something visible it does not matter what stands in front. -/
lemma EndsVisibly.append_left {s : Text} (hs : EndsVisibly s) (hne : s ≠ []) (t : Text) :
    EndsVisibly (t ++ s) := by
  intro c hc
  rw [List.getLast?_append, Option.or_of_isSome (by simpa using hne)] at hc
  exact hs c hc

/-- A text in which blanks and controls would be escaped ends in something visible. -/
lemma endsVisibly_of_stands {set : Percent.ByteSet} {t : Text} (h : Percent.Stands set t)
    (hblank : ∀ n < 0x80, set (UInt8.ofNat (Char.ofNat n).toNat) = false → ¬Char.ofNat n ≤ ' ') :
    EndsVisibly t :=
  endsVisibly_of_forall fun c hc => of_forall_ascii
    (P := fun c => set (UInt8.ofNat c.toNat) = false → ¬c ≤ ' ') hblank (h c hc).1 (h c hc).2

lemma stands_encode_pathSet (t : Text) : Percent.Stands pathSet (Percent.encode pathSet t) :=
  Percent.stands_encode (fun _ hb => Percent.adding_of_set (Percent.controls_of_high hb) _)
    (by decide) (by decide) t

lemma stands_encode_controls (t : Text) :
    Percent.Stands Percent.controls (Percent.encode Percent.controls t) :=
  Percent.stands_encode (fun _ => Percent.controls_of_high) (by decide) (by decide) t

lemma stands_encode_querySet (k : SchemeKind) (t : Text) :
    Percent.Stands (querySet k) (Percent.encode (querySet k) t) := by
  have hfacts : querySet k 0x25 = false ∧
      ∀ n < 16, querySet k (UInt8.ofNat (Percent.hexDigit n).toNat) = false := by
    unfold querySet
    cases k.isSpecial <;> decide
  exact Percent.stands_encode
    (fun _ hb => Percent.adding_of_set (Percent.controls_of_high hb) _) hfacts.1 hfacts.2 t

lemma stands_encode_fragmentSet (t : Text) :
    Percent.Stands fragmentSet (Percent.encode fragmentSet t) :=
  Percent.stands_encode (fun _ hb => Percent.adding_of_set (Percent.controls_of_high hb) _)
    (by decide) (by decide) t

/-- Query and fragment as they are written after they were read. -/
def writtenTail (k : SchemeKind) (tail : Text) : Text :=
  (readTail k tail).1.elim [] ('?' :: ·) ++ (readTail k tail).2.elim [] ('#' :: ·)

/-- Query and fragment end in something visible. -/
lemma endsVisibly_writtenTail (k : SchemeKind) (tail : Text) :
    EndsVisibly (writtenTail k tail) := by
  have hquery : ∀ t, EndsVisibly ('?' :: Percent.encode (querySet k) t) := by
    have hblank : ∀ n < 0x80, querySet k (UInt8.ofNat (Char.ofNat n).toNat) = false →
        ¬Char.ofNat n ≤ ' ' := by
      unfold querySet
      cases k.isSpecial <;> decide
    exact fun t => .cons (by decide) (endsVisibly_of_stands (stands_encode_querySet k t) hblank)
  have hfragment : ∀ t, EndsVisibly ('#' :: Percent.encode fragmentSet t) := fun t =>
    .cons (by decide) (endsVisibly_of_stands (stands_encode_fragmentSet t) (by decide))
  unfold writtenTail readTail
  split
  · split
    · exact (hquery _).append (hfragment _)
    · exact (hquery _).append endsVisibly_nil
  · exact endsVisibly_nil.append (hfragment _)
  · exact endsVisibly_nil

namespace Trail

/-- Whether the segments read so far are escaped. -/
def Escaped (trail : Trail) : Prop := ∀ s ∈ trail.stack, Percent.Stands pathSet s

lemma escaped_empty : Trail.empty.Escaped := by simp [Escaped, Trail.empty]

lemma Escaped.read {trail : Trail} (h : trail.Escaped) (piece : Text) :
    (trail.read piece).Escaped := by
  unfold Trail.read
  dsimp only
  split
  · intro s hs
    refine h s ?_
    dsimp only at hs
    unfold ascend at hs
    split at hs
    · cases hs
    · next top rest hstack =>
      rw [hstack]
      split at hs
      · exact hs
      · exact List.mem_cons_of_mem top hs
  · split
    · exact h
    · exact List.forall_mem_cons.mpr ⟨stands_encode_pathSet piece, h⟩

lemma Escaped.foldl_read (pieces : List Text) {trail : Trail} (h : trail.Escaped) :
    (pieces.foldl Trail.read trail).Escaped := by
  induction pieces generalizing trail with
  | nil => exact h
  | cons piece pieces ih => exact ih (h.read piece)

lemma Escaped.segments {trail : Trail} (h : trail.Escaped) :
    ∀ s ∈ trail.segments, Percent.Stands pathSet s := by
  intro s hs
  rw [Trail.segments, List.mem_reverse] at hs
  split at hs
  · rcases List.mem_cons.mp hs with rfl | hstack
    · simp [Percent.Stands]
    · exact h s hstack
  · exact h s hs

end Trail

lemma stands_readPath (k : SchemeKind) (t : Text) : Percent.Stands pathSet (readPath k t) :=
  stands_joinSegments (Trail.escaped_empty.foldl_read _).segments

/-- The letter of a drive is not escaped. -/
lemma stands_of_cutDrive? {segment drive rest : Text}
    (h : cutDrive? segment = some (drive, rest)) : Percent.Stands pathSet drive := by
  have hfacts : ∀ n < 0x80, isSchemeChar (Char.ofNat n) = true →
      pathSet (UInt8.ofNat (Char.ofNat n).toNat) = false := by
    decide
  unfold cutDrive? at h
  split at h
  · cases h
  · next c behind _ =>
    split at h
    · dsimp only at h
      split at h
      · next hletter =>
        cases h
        simp only [Bool.and_eq_true] at hletter
        have hscheme : isSchemeChar c = true := by
          simp [isSchemeChar, Char.isAlphanum, hletter.1.1]
        have hlow := toNat_lt_of_isSchemeChar hscheme
        have hplain := of_forall_ascii (P := fun c => isSchemeChar c = true →
          pathSet (UInt8.ofNat c.toNat) = false) hfacts hlow hscheme
        exact Percent.stands_cons.mpr ⟨⟨hlow, hplain⟩, by decide⟩
      · cases h
    · cases h

namespace FileTrail

lemma escaped_read {f : FileTrail} (h : f.trail.Escaped) (piece : Text) :
    (f.read piece).trail.Escaped := by
  unfold FileTrail.read
  dsimp only
  split
  · split
    · next drive rest hcut =>
      exact List.forall_mem_cons.mpr ⟨stands_encode_pathSet rest,
        List.forall_mem_cons.mpr ⟨stands_of_cutDrive? hcut, by simp⟩⟩
    · split
      · exact Trail.escaped_empty.read _
      · exact h.read _
  · exact h.read _

lemma escaped_foldl_read (pieces : List Text) {f : FileTrail} (h : f.trail.Escaped) :
    (pieces.foldl FileTrail.read f).trail.Escaped := by
  induction pieces generalizing f with
  | nil => exact h
  | cons piece pieces ih => exact ih (escaped_read h piece)

end FileTrail

/-- The path of a file is escaped. -/
lemma stands_readFilePath (host t : Text) : Percent.Stands pathSet (readFilePath host t).2 := by
  have hjoined := stands_joinSegments (FileTrail.escaped_foldl_read
    (t.splitOnP SchemeKind.file.isSlash) (f := ⟨host, Trail.empty⟩) Trail.escaped_empty).segments
  refine Percent.stands_cons.mpr ⟨isPlain_slash, fun c hc => hjoined c ?_⟩
  exact (List.dropWhile_sublist _).subset hc

lemma endsVisibly_of_pathSet {t : Text} (h : Percent.Stands pathSet t) : EndsVisibly t :=
  endsVisibly_of_stands h (by decide)

/-- A host of a scheme without naming rules ends in something visible. -/
lemma endsVisibly_parseOpaque {t host : Text} (h : Host.parseOpaque t = .ok host) :
    EndsVisibly host := by
  unfold Host.parseOpaque at h
  split at h
  · unfold Host.bracketed at h
    split at h
    · cases h
    · split at h
      · cases h
        unfold Host.ipv6Text
        dsimp only
        exact EndsVisibly.append_left (.cons (by decide) endsVisibly_nil) (by simp) ('[' :: _)
      · cases h
  · split at h
    · cases h
    · next hforbidden =>
      cases h
      refine endsVisibly_of_forall fun c hc hblank => ?_
      have hspace : c = ' ' := by
        have hfacts : ∀ n < 0x80, Percent.controls (UInt8.ofNat (Char.ofNat n).toNat) = false →
            Char.ofNat n ≤ ' ' → Char.ofNat n = ' ' := by
          decide
        exact of_forall_ascii (P := fun c => Percent.controls (UInt8.ofNat c.toNat) = false →
          c ≤ ' ' → c = ' ') hfacts (stands_encode_controls t c hc).1
          (stands_encode_controls t c hc).2 hblank
      rcases Percent.mem_encode (fun _ => Percent.controls_of_high) hc with
        hmark | ⟨n, hn, hdigit⟩ | hin
      · rw [hspace] at hmark
        cases hmark
      · have hne : ∀ n < 16, ' ' ≠ Percent.hexDigit n := by decide
        exact hne n hn (hspace ▸ hdigit)
      · exact hforbidden (List.any_eq_true.mpr ⟨c, hin, by rw [hspace]; rfl⟩)

/-- The number behind a host ends in something visible. -/
lemma endsVisibly_readPort {k : SchemeKind} {t number rest : Text}
    (h : readPort k t = .ok (number, rest)) : EndsVisibly number := by
  have hnumber : ∀ n, EndsVisibly (':' :: Text.ofNat n) := by
    intro n
    refine endsVisibly_of_forall fun c hc hblank => ?_
    rcases List.mem_cons.mp hc with rfl | hdigits
    · exact absurd hblank (by decide)
    · have hdigit := Nat.isDigit_of_mem_toDigits (by decide) (by decide) hdigits
      have hscheme : isSchemeChar c = true := by simp [isSchemeChar, Char.isAlphanum, hdigit]
      exact (schemeChar_of_isSchemeChar hscheme).not_blank hblank
  unfold readPort at h
  split at h
  · dsimp only at h
    split at h
    · cases h
    · split at h
      · cases h
      · split at h
        · cases h
          exact endsVisibly_nil
        · cases h
          exact hnumber _
  · cases h
    exact endsVisibly_nil

/-- A host with its number ends in something visible. -/
lemma endsVisibly_readHost {user place a rest : Text}
    (h : readHost .other user place = .ok (a, rest)) : EndsVisibly a := by
  unfold readHost at h
  have hspecial : SchemeKind.other.isSpecial = false := rfl
  simp only [hspecial, Bool.false_and, Bool.false_eq_true, if_false] at h
  obtain ⟨host, hhost, h⟩ := exists_of_bind_eq_ok h
  split at h
  · cases h
  · next hempty =>
    obtain ⟨⟨number, left⟩, hnumber, h⟩ := exists_of_bind_eq_ok h
    cases h
    rcases eq_or_ne host [] with rfl | hne
    · have huser : user = [] := by
        by_contra hne
        exact hempty (by simp [hne])
      rw [huser]
      exact endsVisibly_readPort hnumber
    · exact ((endsVisibly_parseOpaque hhost).append_left hne user).append
        (endsVisibly_readPort hnumber)

/-! ## Addresses behind their scheme -/

/-- The path behind an authority, from what is left behind it. -/
def pathBehind (k : SchemeKind) : Text → Text
  | [] => []
  | '/' :: segments => readPath k segments
  | segments => readPath k segments

/-- The forms of an address whose scheme is not that of files: with the host that a known scheme
asks for, with an authority, with a path made of segments, and with an opaque path. -/
inductive Form (k : SchemeKind) (more : Bool) : Text → Option Text → Text → Prop
  | network {t a rest : Text} : k.isSpecial = true →
      readAuthority k (t.dropWhile k.isSlash) more = .ok (a, rest) →
      Form k more t (some a) (readPath k (rest.drop 1))
  | authority {t a rest : Text} : k.isSpecial = false → readAuthority k t more = .ok (a, rest) →
      Form k more ('/' :: '/' :: t) (some a) (pathBehind k rest)
  | segments {t : Text} : k.isSpecial = false → t.head? ≠ some '/' →
      Form k more ('/' :: t) none (readPath k t)
  | opaquePath {t : Text} : k.isSpecial = false → t.head? ≠ some '/' →
      Form k more t none (Percent.encode Percent.controls t)

lemma eq_other_of_isSpecial {k : SchemeKind} (h : k.isSpecial = false) : k = .other := by
  cases k with
  | other => rfl
  | file => cases h
  | network port => cases h

lemma form_of_readGeneric {k : SchemeKind} {t path : Text} {more : Bool} {authority : Option Text}
    (h : readGeneric k t more = .ok (authority, path)) : Form k more t authority path := by
  unfold readGeneric at h
  split at h
  · next hspecial =>
    obtain ⟨⟨a, rest⟩, hread, h⟩ := exists_of_bind_eq_ok h
    cases h
    exact .network hspecial hread
  · next hspecial =>
    have hother := Bool.eq_false_iff.mpr hspecial
    split at h
    · obtain ⟨⟨a, rest⟩, hread, h⟩ := exists_of_bind_eq_ok h
      cases h
      exact .authority hother hread
    · next r hnot =>
      cases h
      refine .segments hother fun hhead => ?_
      obtain ⟨r', rfl⟩ := List.head?_eq_some_iff.mp hhead
      exact hnot r' rfl
    · next hone htwo =>
      cases h
      refine .opaquePath hother fun hhead => ?_
      obtain ⟨r, rfl⟩ := List.head?_eq_some_iff.mp hhead
      exact htwo r rfl

section

variable {k : SchemeKind} (more : Bool)

lemma readGeneric_of_isSpecial (h : k.isSpecial = true) (t : Text) :
    readGeneric k t more = (readAuthority k (t.dropWhile k.isSlash) more).map
      fun (a, rest) => (some a, readPath k (rest.drop 1)) := by
  unfold readGeneric
  rw [if_pos h]
  cases readAuthority k (t.dropWhile k.isSlash) more <;> rfl

lemma readGeneric_slashes (h : k.isSpecial = false) (t : Text) :
    readGeneric k ('/' :: '/' :: t) more = (readAuthority k t more).map
      fun (a, rest) => (some a, pathBehind k rest) := by
  unfold readGeneric
  rw [if_neg (by simp [h])]
  split
  · next heq =>
    cases heq
    cases readAuthority k t more <;> rfl
  · next hnot heq =>
    cases heq
    exact absurd rfl (hnot t)
  · next hnot => exact absurd rfl (hnot ('/' :: t))

lemma readGeneric_slash (h : k.isSpecial = false) {t : Text} (ht : t.head? ≠ some '/') :
    readGeneric k ('/' :: t) more = .ok (none, readPath k t) := by
  unfold readGeneric
  rw [if_neg (by simp [h])]
  split
  · simp_all
  · next heq => cases heq; rfl
  · next hnot => exact absurd rfl (hnot t)

lemma readGeneric_of_head (h : k.isSpecial = false) {t : Text} (ht : t.head? ≠ some '/') :
    readGeneric k t more = .ok (none, Percent.encode Percent.controls t) := by
  unfold readGeneric
  rw [if_neg (by simp [h])]
  split
  · simp at ht
  · simp at ht
  · rfl

end

lemma readPlace_of_readRest {scheme rest : Text} {u : Url} (h : readRest scheme rest = .ok u) :
    readPlace (schemeKind scheme) (placeOf rest) (!(tailOf rest).isEmpty) =
        .ok (u.authority, u.path) ∧
      u.scheme = scheme ∧ u.query = (readTail (schemeKind scheme) (tailOf rest)).1 ∧
      u.fragment = (readTail (schemeKind scheme) (tailOf rest)).2 := by
  obtain ⟨⟨authority, path⟩, hplace, rfl⟩ := exists_of_map_eq_ok h
  exact ⟨hplace, rfl, rfl, rfl⟩

/-- Whether an address has neither query nor fragment. -/
def EndsInPath (u : Url) : Prop := u.query = none ∧ u.fragment = none

lemma back_of_endsInPath {u : Url} (h : u.EndsInPath) : u.back = [] := by
  rw [back, h.1, h.2]
  rfl

/-- What does not start with a `?` is read as a fragment. -/
lemma readTail_of_ne {k : SchemeKind} {c : Char} (hc : c ≠ '?') (rest : Text) :
    readTail k (c :: rest) = (none, some (Percent.encode fragmentSet rest)) := by
  unfold readTail
  split
  · next heq => exact absurd (List.cons.inj heq).1 hc
  · next heq => rw [(List.cons.inj heq).2]
  · next heq => cases heq

/-- What stands from a `?` or `#` on is read as a query or a fragment. -/
lemma eq_nil_of_readTail {k : SchemeKind} {tail : Text} (hquery : (readTail k tail).1 = none)
    (hfragment : (readTail k tail).2 = none) : tail = [] := by
  cases tail with
  | nil => rfl
  | cons c rest =>
    by_cases hc : c = '?'
    · rw [hc] at hquery
      cases hquery
    · rw [readTail_of_ne hc] at hfragment
      cases hfragment

/-- Place and tail of what is written, the tail with the characters that do not count. -/
lemma placeOf_append_drop (rest : Text) :
    placeOf rest ++ rest.drop (placeOf rest).length = rest ∧
      ∀ c, (rest.drop (placeOf rest).length).head? = some c → endsPath c = true := by
  have hsplit : placeOf rest ++ rest.dropWhile (!endsPath ·) = rest :=
    List.takeWhile_append_dropWhile
  have hdrop : rest.drop (placeOf rest).length = rest.dropWhile (!endsPath ·) :=
    calc rest.drop (placeOf rest).length
        = (placeOf rest ++ rest.dropWhile (!endsPath ·)).drop (placeOf rest).length := by
          rw [hsplit]
      _ = rest.dropWhile (!endsPath ·) := List.drop_left
  rw [hdrop]
  refine ⟨hsplit, fun c hc => ?_⟩
  have hnot := List.head?_dropWhile_not (!endsPath ·) rest
  rw [hc] at hnot
  simpa using hnot

/-- Where nothing is read from a `?` or `#` on, there is none of these. -/
lemma placeOf_eq_self {rest : Text} (h : tailOf rest = []) : placeOf rest = rest := by
  obtain ⟨hsplit, hhead⟩ := placeOf_append_drop rest
  cases htail : rest.drop (placeOf rest).length with
  | nil =>
    rw [htail, List.append_nil] at hsplit
    exact hsplit
  | cons c tail =>
    have hend := hhead c (by rw [htail]; rfl)
    have hbreak : isBreak c = false := by
      unfold endsPath at hend
      rcases Bool.or_eq_true _ _ |>.mp hend with hc | hc
      · rw [beq_iff_eq.mp hc]
        rfl
      · rw [beq_iff_eq.mp hc]
        rfl
    rw [tailOf, htail, withoutBreaks, List.filter_cons_of_pos (by simp [hbreak])] at h
    cases h

lemma readPath_ne_nil (k : SchemeKind) (t : Text) : readPath k t ≠ [] := List.cons_ne_nil _ _

lemma endsVisibly_pathBehind (k : SchemeKind) (rest : Text) :
    EndsVisibly (pathBehind k rest) := by
  unfold pathBehind
  split
  · exact fun c hc => by cases hc
  · exact endsVisibly_of_pathSet (stands_readPath k _)
  · exact endsVisibly_of_pathSet (stands_readPath k _)

lemma endsVisibly_readAuthority {t a rest : Text} {more : Bool}
    (h : readAuthority .other t more = .ok (a, rest)) : EndsVisibly a := by
  unfold readAuthority at h
  obtain ⟨⟨user, place⟩, -, h⟩ := exists_of_bind_eq_ok h
  obtain ⟨⟨host, left⟩, hhost, h⟩ := exists_of_bind_eq_ok h
  cases h
  exact endsVisibly_readHost hhost

/-- An opaque path that is read where it was written is written as it is read. -/
lemma opaquePath_eq {u : Url} (hends : u.EndsInPath) (hnone : u.authority = none)
    (hhead : (withoutBreaks (Text.dropEndWhile (· ≤ ' ') u.body)).head? ≠ some '/')
    (hpath : u.path = Percent.encode Percent.controls
      (withoutBreaks (Text.dropEndWhile (· ≤ ' ') u.body))) :
    u.body = u.path ∧ withoutBreaks (Text.dropEndWhile (· ≤ ' ') u.body) = u.path ∧
      Text.dropEndWhile (· ≤ ' ') u.body = u.body := by
  have hfront : u.front = [] := by
    rw [front, hnone]
    dsimp only
    split
    · next hslashes =>
      have hbody : u.body = '/' :: '.' :: u.path := by
        rw [body, front, hnone, back_of_endsInPath hends, List.append_nil]
        dsimp only
        rw [if_pos hslashes]
        rfl
      have hdrop : Text.dropEndWhile (· ≤ ' ') ('/' :: '.' :: u.path) =
          '/' :: Text.dropEndWhile (· ≤ ' ') ('.' :: u.path) :=
        Text.dropEndWhile_append_cons (by decide) [] _
      rw [hbody, hdrop, withoutBreaks, List.filter_cons_of_pos (by decide)] at hhead
      exact absurd rfl hhead
    · rfl
  have hbody : u.body = u.path := by
    rw [body, hfront, back_of_endsInPath hends, List.nil_append, List.append_nil]
  have hstands : Percent.Stands Percent.controls (Text.dropEndWhile (· ≤ ' ') u.body) := by
    intro c hc
    have hin := Text.mem_of_mem_dropEndWhile hc
    rw [hbody, hpath] at hin
    exact stands_encode_controls _ c hin
  have hkeep := withoutBreaks_of_controls hstands
  rw [hkeep, Percent.encode_of_stands hstands] at hpath
  exact ⟨hbody, hkeep.trans hpath.symm, hpath.symm.trans hbody.symm⟩

/-- The path of a file address is read from what is written behind its host. -/
lemma exists_readFilePath_of_readFile {t host path : Text} (h : readFile t = .ok (host, path)) :
    ∃ start segments, readFilePath start segments = (host, path) := by
  unfold readFile at h
  split at h
  · exact ⟨_, _, Except.ok.inj h⟩
  · split at h
    · exact ⟨_, _, Except.ok.inj h⟩
    · dsimp only at h
      split at h
      · exact ⟨_, _, Except.ok.inj h⟩
      · obtain ⟨name, -, h⟩ := exists_of_bind_eq_ok h
        exact ⟨_, _, Except.ok.inj h⟩

/-- The place of a file address ends in its path. -/
lemma exists_of_readPlace_file {place path : Text} {more : Bool} {authority : Option Text}
    (h : readPlace .file place more = .ok (authority, path)) :
    ∃ host, readFile place = .ok (host, path) ∧ authority = some host := by
  rw [readPlace, if_pos rfl] at h
  obtain ⟨⟨host, read⟩, hread, h⟩ := exists_of_map_eq_ok h
  cases h
  exact ⟨host, hread, rfl⟩

/-- The path behind an authority starts with a slash, if there is one. -/
lemma head?_pathBehind {k : SchemeKind} {rest : Text} (hne : pathBehind k rest ≠ []) :
    (pathBehind k rest).head? = some '/' := by
  unfold pathBehind at hne ⊢
  split
  · exact absurd rfl hne
  · rfl
  · rfl

/-- An address with an opaque path has a scheme without rules of its own and no authority. Its path
was read up to the first end of the path and is escaped. -/
lemma opaquePath_of_parse {input : Text} {u : Url} (hu : parse input = .ok u)
    (hne : u.path ≠ []) (hhead : u.path.head? ≠ some '/') :
    (IsScheme u.scheme ∧ schemeKind u.scheme = .other ∧ u.authority = none) ∧
      Percent.Stands Percent.controls u.path ∧ ∀ c ∈ u.path, endsPath c = false := by
  obtain ⟨hscheme, rest, hrest⟩ := exists_readRest_of_parse hu
  obtain ⟨hplace, -⟩ := readPlace_of_readRest hrest
  have hkind : schemeKind u.scheme ≠ .file := by
    intro hfile
    rw [hfile] at hplace
    obtain ⟨host, hread, -⟩ := exists_of_readPlace_file hplace
    obtain ⟨start, segments, hpath⟩ := exists_readFilePath_of_readFile hread
    exact hhead (congrArg (List.head? ·.2) hpath.symm)
  rw [readPlace, if_neg hkind] at hplace
  -- of the four forms only the last one may have a path that does not start with a slash
  have hform := form_of_readGeneric hplace
  generalize ht : withoutBreaks (placeOf rest) = t at hform
  generalize ha : u.authority = authority at hform ⊢
  generalize u.path = path at hform hne hhead ⊢
  cases hform with
  | network _ _ => exact absurd rfl hhead
  | authority _ _ => exact absurd (head?_pathBehind hne) hhead
  | segments _ _ => exact absurd rfl hhead
  | opaquePath hspecial _ =>
    refine ⟨⟨hscheme, eq_other_of_isSpecial hspecial, rfl⟩, stands_encode_controls _, ?_⟩
    intro c hc
    rcases Percent.mem_encode (fun _ => Percent.controls_of_high) hc with rfl | ⟨n, hn, rfl⟩ | hin
    · rfl
    · have hdigits : ∀ n < 16, endsPath (Percent.hexDigit n) = false := by decide
      exact hdigits n hn
    · rw [← ht] at hin
      simpa using List.mem_takeWhile_imp (List.mem_filter.mp hin).1

lemma endsVisibly_front_append {u : Url} (hpath : EndsVisibly u.path) (hne : u.path ≠ [])
    (hends : u.EndsInPath) : EndsVisibly u.body := by
  rw [body, back_of_endsInPath hends, List.append_nil]
  exact hpath.append_left hne u.front

/-- An address that ends in a path whose characters stand for themselves ends visibly. -/
lemma dropEndWhile_body_of_stands {u : Url} (hends : u.EndsInPath)
    (hstands : Percent.Stands pathSet u.path) (hne : u.path ≠ []) :
    Text.dropEndWhile (· ≤ ' ') u.body = u.body :=
  (endsVisibly_front_append (endsVisibly_of_pathSet hstands) hne hends).dropEndWhile_eq

lemma dropEndWhile_body_of_file {u : Url} {place : Text} (hends : u.EndsInPath)
    (hplace : readPlace .file place false = .ok (u.authority, u.path)) :
    Text.dropEndWhile (· ≤ ' ') u.body = u.body := by
  obtain ⟨host, hread, -⟩ := exists_of_readPlace_file hplace
  obtain ⟨start, segments, hpath⟩ := exists_readFilePath_of_readFile hread
  have hstands := stands_readFilePath start segments
  have hne : (readFilePath start segments).2 ≠ [] := List.cons_ne_nil _ _
  rw [hpath] at hstands hne
  exact dropEndWhile_body_of_stands hends hstands hne

lemma dropEndWhile_body_of_generic {u : Url} {k : SchemeKind} (hends : u.EndsInPath)
    (hplace : readGeneric k (withoutBreaks (Text.dropEndWhile (· ≤ ' ') u.body)) false =
      .ok (u.authority, u.path)) :
    Text.dropEndWhile (· ≤ ' ') u.body = u.body := by
  have hform := form_of_readGeneric hplace
  generalize ht : withoutBreaks (Text.dropEndWhile (· ≤ ' ') u.body) = t at hform
  generalize ha : u.authority = authority at hform
  generalize hp : u.path = path at hform
  have hsegments : ∀ k t, u.path = readPath k t →
      Text.dropEndWhile (· ≤ ' ') u.body = u.body := fun k t hpath =>
    dropEndWhile_body_of_stands hends (hpath ▸ stands_readPath k t) (hpath ▸ readPath_ne_nil k t)
  cases hform with
  | network _ _ => exact hsegments _ _ hp
  | @authority t a rest hspecial hread =>
    rw [eq_other_of_isSpecial hspecial] at hread
    have hfront : EndsVisibly u.front := by
      rw [front, ha]
      exact .cons (by decide) (.cons (by decide) (endsVisibly_readAuthority hread))
    rw [body, back_of_endsInPath hends, List.append_nil, hp]
    exact (hfront.append (endsVisibly_pathBehind _ _)).dropEndWhile_eq
  | segments _ _ => exact hsegments _ _ hp
  | opaquePath _ hhead =>
    rw [← ht] at hhead hp
    exact (opaquePath_eq hends ha hhead hp).2.2

lemma back_ne_nil {u : Url} (h : ¬u.EndsInPath) : u.back ≠ [] := by
  intro hnil
  rw [back, List.append_eq_nil_iff] at hnil
  refine h ⟨?_, ?_⟩
  · cases hq : u.query with
    | none => rfl
    | some q => rw [hq] at hnil; cases hnil.1
  · cases hf : u.fragment with
    | none => rfl
    | some f => rw [hf] at hnil; cases hnil.2

/-- What an address ends in is not trimmed where it is read from its own text. -/
lemma dropEndWhile_body {u : Url} (h : parse u.text = .ok u) :
    Text.dropEndWhile (· ≤ ' ') u.body = u.body := by
  have hscheme := (exists_readRest_of_parse h).1
  have hrest : readRest u.scheme (Text.dropEndWhile (· ≤ ' ') u.body) = .ok u := by
    rw [← parse_of_isScheme hscheme]
    exact h
  obtain ⟨hplace, -, hquery, hfragment⟩ := readPlace_of_readRest hrest
  by_cases hends : u.EndsInPath
  · have htail := eq_nil_of_readTail (hquery ▸ hends.1) (hfragment ▸ hends.2)
    rw [htail, placeOf_eq_self htail] at hplace
    by_cases hkind : schemeKind u.scheme = .file
    · rw [hkind] at hplace
      exact dropEndWhile_body_of_file hends hplace
    · rw [readPlace, if_neg hkind] at hplace
      exact dropEndWhile_body_of_generic hends hplace
  · have hback : EndsVisibly u.back := by
      rw [back, hquery, hfragment]
      exact endsVisibly_writtenTail _ _
    exact (hback.append_left (back_ne_nil hends) _).dropEndWhile_eq

/-- An address that is read from its own text is what its body is read as. -/
lemma readRest_body {u : Url} (h : parse u.text = .ok u) :
    IsScheme u.scheme ∧ readRest u.scheme u.body = .ok u := by
  have hscheme := (exists_readRest_of_parse h).1
  have hdrop := dropEndWhile_body h
  rw [text, parse_of_isScheme hscheme, hdrop] at h
  exact ⟨hscheme, h⟩

end Url

end ContentMounts
