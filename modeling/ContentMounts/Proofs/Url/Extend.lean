import ContentMounts.Proofs.Url.Below
import ContentMounts.Proofs.Url.Form

/-!
# What is written behind an address

What is written behind an address goes on where the address ends: in the fragment, in the query or
in the path. In a fragment, a query and an opaque path nothing is folded, so whatever is written
stays in the address; behind a path made of segments what stays below the path does (`StaysIn`).
Then the address is in front of what is read (`text_prefix_of_parse_append`). One lemma for each form
of an address says so for what stands behind the scheme.
-/

namespace ContentMounts

namespace Url

/-! ## Where a text is cut -/

section

variable {p : Char → Bool} {t : Text}

lemma takeWhile_eq_self_of_drop (h : t.drop (t.takeWhile p).length = []) : t.takeWhile p = t :=
  ( List.takeWhile_prefix p).eq_of_length_le (List.drop_eq_nil_iff.mp h)

lemma drop_takeWhile_ne_nil {c : Char} (hc : c ∈ t) (hp : p c = false) :
    t.drop (t.takeWhile p).length ≠ [] := by
  intro hnil
  have hall := List.takeWhile_eq_self_iff.mp (takeWhile_eq_self_of_drop hnil) c hc
  rw [hp] at hall
  cases hall

/-- What is written behind a text does not matter in front of the place where the text is cut. -/
lemma takeWhile_append_of_drop (h : t.drop (t.takeWhile p).length ≠ []) (x : Text) :
    (t ++ x).takeWhile p = t.takeWhile p := by
  have hlt : (t.takeWhile p).length ≠ t.length := fun heq =>
    h (List.drop_eq_nil_iff.mpr (Nat.le_of_eq heq.symm))
  rw [List.takeWhile_append, if_neg hlt]

lemma drop_takeWhile_append (p : Char → Bool) (t x : Text) :
    (t ++ x).drop (t.takeWhile p).length = t.drop (t.takeWhile p).length ++ x :=
  List.drop_append_of_le_length ( List.takeWhile_prefix p).length_le

end

/-! ## Authorities in front of a path -/

/-- Only an authority that is nothing but the mark behind a password is read differently if the
address goes on. -/
lemma readLogin_true {whole : Text} (h : whole ≠ ['@']) :
    readLogin whole true = readLogin whole false := by
  unfold readLogin
  cases hcut : Text.cutLast? '@' whole with
  | none => rfl
  | some parts =>
    obtain ⟨user, place⟩ := parts
    have hempty : (user.isEmpty && place.isEmpty) = false := by
      rw [Bool.eq_false_iff]
      intro hboth
      obtain ⟨huser, hplace⟩ := Bool.and_eq_true _ _ |>.mp hboth
      rw [List.isEmpty_iff.mp huser, List.isEmpty_iff.mp hplace] at hcut
      exact h (Text.eq_of_cutLast? hcut)
    dsimp only
    rw [hempty, Bool.false_and, Bool.false_and]

/-- What is written behind an authority that a slash ends stands behind what is left of it. -/
lemma readAuthority_append {k : SchemeKind} {t x a rest : Text}
    (h : readAuthority k t false = .ok (a, rest))
    (hx : t.drop (t.takeWhile (!k.isSlash ·)).length ≠ [] ∨ x.head? = some '/' ∧ t ≠ ['@']) :
    readAuthority k (t ++ x) false = .ok (a, rest ++ x) := by
  unfold readAuthority at h ⊢
  obtain ⟨⟨user, place⟩, hlogin, h⟩ := exists_of_bind_eq_ok h
  obtain ⟨⟨host, left⟩, hhost, h⟩ := exists_of_bind_eq_ok h
  obtain ⟨rfl, rfl⟩ := Prod.ext_iff.mp (Except.ok.inj h)
  dsimp only at hlogin hhost ⊢
  obtain ⟨hwhole, hbehind, hlogin'⟩ :
      (t ++ x).takeWhile (!k.isSlash ·) = t.takeWhile (!k.isSlash ·) ∧
        (t.drop (t.takeWhile (!k.isSlash ·)).length ++ x).isEmpty = false ∧
        readLogin (t.takeWhile (!k.isSlash ·)) true = .ok (user, place) := by
    by_cases hnil : t.drop (t.takeWhile (!k.isSlash ·)).length = []
    · obtain ⟨hslash, hat⟩ := hx.resolve_left fun hne => hne hnil
      have hself := takeWhile_eq_self_of_drop hnil
      obtain ⟨w, rfl⟩ := List.head?_eq_some_iff.mp hslash
      rw [hself] at hlogin hnil ⊢
      rw [hnil] at hlogin
      refine ⟨?_, by simp, ?_⟩
      · rw [List.takeWhile_append, if_pos (by rw [hself]), List.takeWhile_cons_of_neg
          (by simp [SchemeKind.isSlash]), List.append_nil]
      · rw [readLogin_true hat]
        exact hlogin
    · refine ⟨takeWhile_append_of_drop hnil x, by simp [hnil], ?_⟩
      have hflag : (!(t.drop (t.takeWhile (!k.isSlash ·)).length).isEmpty || false) = true := by
        simpa using hnil
      rw [hflag] at hlogin
      exact hlogin
  rw [hwhole, drop_takeWhile_append, hbehind, Bool.not_false, Bool.true_or, hlogin', List.append_assoc]
  simp only [bind, Except.bind, hhost, pure, Except.pure]

/-- A slash at the end stands behind the authority. -/
lemma getLast?_of_readAuthority {k : SchemeKind} {t a rest : Text} {more : Bool}
    (h : readAuthority k t more = .ok (a, rest)) (hlast : t.getLast? = some '/') :
    t.drop (t.takeWhile (!k.isSlash ·)).length ≠ [] ∧ rest.getLast? = some '/' := by
  obtain ⟨front, rfl⟩ := List.getLast?_eq_some_iff.mp hlast
  have hne : (front ++ ['/']).drop ((front ++ ['/']).takeWhile (!k.isSlash ·)).length ≠ [] :=
    drop_takeWhile_ne_nil (c := '/') (by simp) (by simp [SchemeKind.isSlash])
  refine ⟨hne, ?_⟩
  unfold readAuthority at h
  obtain ⟨⟨user, place⟩, -, h⟩ := exists_of_bind_eq_ok h
  obtain ⟨⟨host, left⟩, -, h⟩ := exists_of_bind_eq_ok h
  cases h
  rw [List.getLast?_append, Option.or_of_isSome (by simpa using hne)]
  obtain ⟨front', hfront'⟩ := List.drop_suffix
    ((front ++ ['/']).takeWhile (!k.isSlash ·)).length (front ++ ['/'])
  have hsame := congrArg List.getLast? hfront'
  rw [List.getLast?_append, Option.or_of_isSome (by simpa using hne)] at hsame
  exact hsame.trans List.getLast?_concat

/-! ## Behind the path of an address -/

/-- The slash that has to be written behind a text before a path can go on. -/
def slashFor (t : Text) : Text := if t.getLast? = some '/' then [] else ['/']

lemma slashFor_eq_or (t : Text) : slashFor t = [] ∨ slashFor t = ['/'] := by
  unfold slashFor
  split
  · exact .inl rfl
  · exact .inr rfl

lemma stands_slashFor (t : Text) : Percent.Stands pathSet (slashFor t) := by
  rcases slashFor_eq_or t with h | h
  · rw [h]
    decide
  · rw [h]
    decide

/-- Whatever is read from the end of a text ends in the slash that the text ends in. -/
lemma getLast?_of_suffix_withoutBreaks {t b : Text} (h : t <:+ withoutBreaks b)
    (hlast : b.getLast? = some '/') : t = [] ∨ t.getLast? = some '/' := by
  obtain ⟨front, rfl⟩ := List.getLast?_eq_some_iff.mp hlast
  have hall : (withoutBreaks (front ++ ['/'])).getLast? = some '/' := by
    rw [withoutBreaks, List.filter_append, List.filter_cons_of_pos (by decide), List.filter_nil,
      List.getLast?_concat]
  exact getLast?_of_suffix h hall

/-- An authority that was read from the end of a text is read again where a path goes on behind the
text: either it is followed by a slash, or the path starts with one. -/
lemma readAuthority_append_slashFor {k : SchemeKind} {t b a rest : Text}
    (h : readAuthority k t false = .ok (a, rest)) (hat : t ≠ ['@'])
    (hlast : b.getLast? = some '/' → t.getLast? = some '/') (w : Text) :
    readAuthority k (t ++ (slashFor b ++ w)) false = .ok (a, rest ++ (slashFor b ++ w)) := by
  refine readAuthority_append h ?_
  by_cases hslash : b.getLast? = some '/'
  · exact .inl (getLast?_of_readAuthority h (hlast hslash)).1
  · rw [slashFor, if_neg hslash]
    exact .inr ⟨rfl, hat⟩

lemma getLast?_body {u : Url} (hends : u.EndsInPath) (hne : u.path ≠ []) :
    u.body.getLast? = u.path.getLast? := by
  rw [body, back_of_endsInPath hends, List.append_nil, List.getLast?_append,
    Option.or_of_isSome (by simpa using hne)]

/-- A path that was read from the end of an address goes on behind it. -/
lemma joins_of_suffix {u : Url} {k : SchemeKind} {p : Text} (hends : u.EndsInPath)
    (hpath : u.path = readPath k p)
    (hlast : u.body.getLast? = some '/' → p = [] ∨ p.getLast? = some '/') :
    Joins k p (slashFor u.body) := by
  have hbody := getLast?_body hends (hpath ▸ readPath_ne_nil k p)
  unfold slashFor
  split
  · next hslash => exact .inl ⟨rfl, hlast hslash⟩
  · next hslash =>
    rw [hbody, hpath] at hslash
    exact .inr ⟨rfl, hslash⟩

section

variable {u v : Url} {k : SchemeKind} {w : Text}

lemma body_of_endsInPath (hends : u.EndsInPath) : u.body = u.front ++ u.path := by
  rw [body, back_of_endsInPath hends, List.append_nil]

/-- The mark in front of a path that starts with two slashes starts with a slash itself. -/
lemma body_prefix_of_path (hends : u.EndsInPath) (ha : v.authority = u.authority)
    (hpath : u.path ++ slashFor u.body <+: v.path) : u.body ++ slashFor u.body <+: v.body := by
  have hsame : v.front = u.front → u.body ++ slashFor u.body <+: v.body := by
    intro hfront
    have hleft : u.body ++ slashFor u.body = u.front ++ (u.path ++ slashFor u.body) := by
      rw [← List.append_assoc, ← body_of_endsInPath hends]
    have hright : v.body = u.front ++ (v.path ++ v.back) := by
      rw [body, hfront, List.append_assoc]
    rw [hleft, hright]
    exact (List.prefix_append_right_inj u.front).mpr (hpath.trans (List.prefix_append _ _))
  cases hau : u.authority with
  | some a => exact hsame (by rw [front, front, ha, hau])
  | none =>
    have hfrontu : u.front = if ['/', '/'].isPrefixOf u.path then ['/', '.'] else [] := by
      rw [front, hau]
    have hfrontv : v.front = if ['/', '/'].isPrefixOf v.path then ['/', '.'] else [] := by
      rw [front, ha, hau]
    by_cases hslashes : ['/', '/'].isPrefixOf u.path = true
    · have hslashes' : ['/', '/'].isPrefixOf v.path = true :=
        List.isPrefixOf_iff_prefix.mpr (( List.isPrefixOf_iff_prefix.mp hslashes).trans
          ((List.prefix_append _ _).trans hpath))
      exact hsame (by rw [hfrontu, hfrontv, if_pos hslashes, if_pos hslashes'])
    · by_cases hslashes' : ['/', '/'].isPrefixOf v.path = true
      · have hbody : u.body = u.path := by
          rw [body_of_endsInPath hends, hfrontu, if_neg hslashes, List.nil_append]
        rw [hbody] at hpath ⊢
        obtain ⟨rest, hrest⟩ := List.isPrefixOf_iff_prefix.mp hslashes'
        have hone : u.path ++ slashFor u.path = ['/'] := by
          rw [← hrest] at hpath
          cases hu : u.path with
          | nil => rfl
          | cons c more =>
            rw [hu] at hpath hslashes
            obtain ⟨rfl, hmore⟩ := List.cons_prefix_cons.mp hpath
            cases more with
            | nil => rfl
            | cons d more =>
              obtain ⟨rfl, -⟩ := List.cons_prefix_cons.mp hmore
              exact absurd rfl hslashes
        rw [hone, body, hfrontv, if_pos hslashes']
        exact ⟨_, rfl⟩
      · exact hsame (by rw [hfrontu, hfrontv, if_neg hslashes, if_neg hslashes'])

/-- Behind the host of a known scheme the path goes on. -/
lemma path_prefix_of_network {t a rest : Text} (hspecial : k.isSpecial = true)
    (hends : u.EndsInPath) (ht : withoutBreaks u.body = t)
    (hread : readAuthority k (t.dropWhile k.isSlash) false = .ok (a, rest))
    (hpath : u.path = readPath k (rest.drop 1))
    (hv : readGeneric k (t ++ (slashFor u.body ++ w)) false = .ok (v.authority, v.path))
    (hw : Percent.Stands pathSet w) (hstays : StaysBelow 0 (w.splitOnP k.isSlash) = true) :
    v.authority = some a ∧ u.path ++ slashFor u.body <+: v.path := by
  have hplain : readAuthority k [] false = .error .emptyHost ∧
      readAuthority k ['@'] false = .error .emptyHost := by
    cases k with
    | other => cases hspecial
    | file => exact ⟨rfl, rfl⟩
    | network port => exact ⟨rfl, rfl⟩
  have hne : t.dropWhile k.isSlash ≠ [] := by
    intro hnil
    rw [hnil, hplain.1] at hread
    cases hread
  have hat : t.dropWhile k.isSlash ≠ ['@'] := by
    intro heq
    rw [heq, hplain.2] at hread
    cases hread
  have hlast : u.body.getLast? = some '/' → (t.dropWhile k.isSlash).getLast? = some '/' :=
    fun hslash => (getLast?_of_suffix_withoutBreaks (ht ▸ List.dropWhile_suffix _)
      hslash).resolve_left hne
  have hrest : rest ≠ [] := by
    rintro rfl
    have hslash : u.body.getLast? = some '/' := by
      rw [getLast?_body hends (hpath ▸ readPath_ne_nil _ _), hpath]
      rfl
    have hleft := (getLast?_of_readAuthority hread (hlast hslash)).2
    cases hleft
  have hjoins : Joins k (rest.drop 1) (slashFor u.body) := joins_of_suffix hends hpath fun hslash =>
    getLast?_of_suffix (List.drop_suffix 1 rest) (getLast?_of_readAuthority hread (hlast hslash)).2
  have hdrop : (t ++ (slashFor u.body ++ w)).dropWhile k.isSlash =
      t.dropWhile k.isSlash ++ (slashFor u.body ++ w) := by
    rw [List.dropWhile_append, if_neg (by simpa using hne)]
  rw [readGeneric_of_isSpecial false hspecial, hdrop,
    readAuthority_append_slashFor hread hat hlast w] at hv
  obtain ⟨hauthority, hvpath⟩ := Prod.ext_iff.mp (Except.ok.inj hv)
  dsimp only at hauthority hvpath
  rw [List.drop_append_of_le_length (List.length_pos_iff.mpr hrest)] at hvpath
  rw [← hauthority, ← hvpath, hpath]
  exact ⟨rfl, hjoins.front_readPath hw hstays⟩

/-- What is written behind an authority is a path of its own. -/
lemma exists_pathBehind {rest : Text} (hne : rest ≠ []) :
    ∃ p, p <:+ rest ∧ ∀ x, pathBehind k (rest ++ x) = readPath k (p ++ x) := by
  obtain ⟨c, segments, rfl⟩ := List.exists_cons_of_ne_nil hne
  by_cases hc : c = '/'
  · exact ⟨segments, List.suffix_cons c segments, fun x => by rw [hc]; rfl⟩
  · refine ⟨c :: segments, List.suffix_refl _, fun x => ?_⟩
    rw [List.cons_append]
    unfold pathBehind
    split
    · next heq => cases heq
    · next heq => exact absurd (List.cons.inj heq).1 hc
    · rfl

/-- Behind an authority the path goes on, or starts. -/
lemma body_prefix_of_authority {t a rest : Text} (hother : k.isSpecial = false)
    (hends : u.EndsInPath) (ht : withoutBreaks u.body = '/' :: '/' :: t)
    (hread : readAuthority k t false = .ok (a, rest)) (ha : u.authority = some a)
    (hpath : u.path = pathBehind k rest)
    (hv : readGeneric k ('/' :: '/' :: (t ++ (slashFor u.body ++ w))) false =
      .ok (v.authority, v.path))
    (hw : Percent.Stands pathSet w) (hstays : StaysBelow 0 (w.splitOnP k.isSlash) = true) :
    u.body ++ slashFor u.body <+: v.body := by
  have hbody : u.body = '/' :: '/' :: (a ++ pathBehind k rest) := by
    rw [body_of_endsInPath hends, front, ha, hpath]
    rfl
  have hplain : readAuthority k [] false = .ok ([], []) ∧
      readAuthority k ['@'] false = .ok ([], []) := by
    rw [eq_other_of_isSpecial hother]
    exact ⟨rfl, rfl⟩
  rw [readGeneric_slashes false hother] at hv
  rcases eq_or_ne t [] with rfl | hne
  · rw [hplain.1] at hread
    cases hread
    obtain ⟨⟨b, more⟩, -, hv⟩ := exists_of_map_eq_ok hv
    have hauthority : some b = v.authority := congrArg Prod.fst hv
    have hslash : slashFor ['/', '/'] = [] := rfl
    have hfront : v.front = '/' :: '/' :: b := by rw [front, ← hauthority]
    rw [hbody, body, hfront]
    exact ⟨_, rfl⟩
  · have hlast : u.body.getLast? = some '/' → t.getLast? = some '/' := fun hslash =>
      (getLast?_of_suffix_withoutBreaks (ht ▸ ⟨['/', '/'], rfl⟩) hslash).resolve_left hne
    have hat : t ≠ ['@'] := by
      rintro rfl
      rw [hplain.2] at hread
      cases hread
      rw [hbody] at ht
      cases ht
    rw [readAuthority_append_slashFor hread hat hlast w] at hv
    obtain ⟨hauthority, hvpath⟩ := Prod.ext_iff.mp (Except.ok.inj hv)
    dsimp only at hauthority hvpath
    refine body_prefix_of_path hends (hauthority.symm.trans ha.symm) ?_
    rw [← hvpath, hpath]
    rcases eq_or_ne rest [] with rfl | hrest
    · have hslash : slashFor u.body = ['/'] := by
        refine if_neg fun hslash => ?_
        have hleft := (getLast?_of_readAuthority hread (hlast hslash)).2
        cases hleft
      rw [hslash]
      exact ⟨_, rfl⟩
    · obtain ⟨p, hsuffix, hbehind⟩ := @exists_pathBehind k rest hrest
      have hp : pathBehind k rest = readPath k p := by
        have hnil := hbehind []
        rwa [List.append_nil, List.append_nil] at hnil
      rw [hbehind, hp]
      exact (joins_of_suffix hends (hpath.trans hp) fun hslash => getLast?_of_suffix hsuffix
        (getLast?_of_readAuthority hread (hlast hslash)).2).front_readPath hw hstays

/-- A path without an authority goes on. -/
lemma body_prefix_of_segments {t : Text} (hother : k.isSpecial = false) (hends : u.EndsInPath)
    (ht : withoutBreaks u.body = '/' :: t) (hslash : t.head? ≠ some '/')
    (ha : u.authority = none) (hpath : u.path = readPath k t)
    (hv : readGeneric k ('/' :: (t ++ (slashFor u.body ++ w))) false = .ok (v.authority, v.path))
    (hw : Percent.Stands pathSet w) (hhead : w.head? ≠ some '/')
    (hstays : StaysBelow 0 (w.splitOnP k.isSlash) = true) :
    u.body ++ slashFor u.body <+: v.body := by
  have hnot : (t ++ (slashFor u.body ++ w)).head? ≠ some '/' := by
    cases t with
    | cons c t => exact hslash
    | nil =>
      have hend : u.body.getLast? = some '/' := by
        rw [getLast?_body hends (hpath ▸ readPath_ne_nil k []), hpath]
        rfl
      rw [slashFor, if_pos hend]
      exact hhead
  rw [readGeneric_slash false hother hnot] at hv
  obtain ⟨hauthority, hvpath⟩ := Prod.ext_iff.mp (Except.ok.inj hv)
  dsimp only at hauthority hvpath
  refine body_prefix_of_path hends (hauthority.symm.trans ha.symm) ?_
  rw [← hvpath, hpath]
  exact (joins_of_suffix hends hpath (getLast?_of_suffix_withoutBreaks
    (ht ▸ List.suffix_cons '/' t))).front_readPath hw hstays

/-- An opaque path goes on as it is written. Only behind nothing a path made of segments starts. -/
lemma body_prefix_of_opaque {t : Text} (hother : k.isSpecial = false) (hends : u.EndsInPath)
    (hdrop : Text.dropEndWhile (· ≤ ' ') u.body = u.body) (ht : withoutBreaks u.body = t)
    (hslash : t.head? ≠ some '/') (ha : u.authority = none)
    (hpath : u.path = Percent.encode Percent.controls t)
    (hv : readGeneric k (t ++ (slashFor u.body ++ w)) false = .ok (v.authority, v.path))
    (hw : Percent.Stands pathSet w) (hhead : w.head? ≠ some '/') :
    u.body ++ slashFor u.body <+: v.body := by
  subst ht
  obtain ⟨hbody, hsame, -⟩ := opaquePath_eq hends ha (by rwa [hdrop]) (by rwa [hdrop])
  rw [hdrop] at hsame
  have hx : Percent.Stands pathSet (slashFor u.body ++ w) := (stands_slashFor u.body).append hw
  have hkeep : Percent.encode Percent.controls (withoutBreaks u.body) = withoutBreaks u.body :=
    hpath.symm.trans hsame.symm
  cases hcases : withoutBreaks u.body with
  | nil =>
    have hnil : u.body = [] := hbody.trans (hsame.symm.trans hcases)
    have hone : slashFor u.body = ['/'] := by
      rw [hnil]
      rfl
    rw [hcases, hone, List.nil_append, List.singleton_append,
      readGeneric_slash false hother hhead] at hv
    obtain ⟨hauthority, hvpath⟩ := Prod.ext_iff.mp (Except.ok.inj hv)
    dsimp only at hauthority hvpath
    refine body_prefix_of_path hends (hauthority.symm.trans ha.symm) ?_
    rw [hone, hpath, hkeep, hcases, ← hvpath]
    exact ⟨_, rfl⟩
  | cons c t =>
    rw [hcases] at hslash
    rw [readGeneric_of_head false hother (by rwa [hcases]), Percent.encode_append, hkeep,
      encode_controls_of_stands hx] at hv
    obtain ⟨hauthority, hvpath⟩ := Prod.ext_iff.mp (Except.ok.inj hv)
    dsimp only at hauthority hvpath
    refine body_prefix_of_path hends (hauthority.symm.trans ha.symm) ?_
    rw [← hvpath, ← List.append_assoc, hsame]
    exact List.prefix_append _ _

end

/-! ## Behind a query or a fragment -/

/-- Whether a text holds no mark of a fragment. -/
def NoHash (t : Text) : Prop := ∀ c ∈ t, (c != '#') = true

lemma NoHash.append {t s : Text} (ht : NoHash t) (hs : NoHash s) : NoHash (t ++ s) :=
  fun c hc => (List.mem_append.mp hc).elim (ht c) (hs c)

lemma noHash_of_stands {t : Text} (h : Percent.Stands pathSet t) : NoHash t := by
  intro c hc
  have hend := (pathChar_of_isPlain (h c hc)).not_end
  simp only [endsPath, Bool.or_eq_false_iff, beq_eq_false_iff_ne, ne_eq] at hend
  simpa using hend.2

lemma noHash_or_exists_hash (t : Text) :
    NoHash t ∨ ∃ q f, NoHash q ∧ t = q ++ '#' :: f := by
  have hsplit := (List.takeWhile_append_dropWhile (p := (· != '#')) (l := t)).symm
  have hleft : NoHash (t.takeWhile (· != '#')) := fun c hc =>
    List.mem_takeWhile_imp (p := (· != '#')) hc
  cases hdrop : t.dropWhile (· != '#') with
  | nil =>
    rw [hdrop, List.append_nil] at hsplit
    exact .inl (hsplit ▸ hleft)
  | cons c f =>
    have hc := List.head?_dropWhile_not (· != '#') t
    rw [hdrop] at hc
    have hmark : c = '#' := by simpa using hc
    rw [hdrop, hmark] at hsplit
    exact .inr ⟨_, f, hleft, hsplit⟩

lemma readTail_query (k : SchemeKind) (r : Text) :
    readTail k ('?' :: r) = (some (Percent.encode (querySet k) (r.takeWhile (· != '#'))),
      (r.dropWhile (· != '#')).tail?.map (Percent.encode fragmentSet)) := by
  simp only [readTail]
  cases r.dropWhile (· != '#') <;> rfl

lemma writtenTail_query {k : SchemeKind} {q : Text} (hq : NoHash q) :
    writtenTail k ('?' :: q) = '?' :: Percent.encode (querySet k) q := by
  have htake : q.takeWhile (· != '#') = q := List.takeWhile_eq_self_iff.mpr hq
  have hdrop : q.dropWhile (· != '#') = [] := List.dropWhile_eq_nil_iff.mpr hq
  rw [writtenTail, readTail_query, htake, hdrop]
  simp

lemma writtenTail_hash {k : SchemeKind} {q f : Text} (hq : NoHash q) :
    writtenTail k ('?' :: (q ++ '#' :: f)) =
      '?' :: (Percent.encode (querySet k) q ++ '#' :: Percent.encode fragmentSet f) := by
  have htake : (q ++ '#' :: f).takeWhile (· != '#') = q := by
    rw [List.takeWhile_append_of_pos hq, List.takeWhile_cons_of_neg (by simp), List.append_nil]
  have hdrop : (q ++ '#' :: f).dropWhile (· != '#') = '#' :: f := by
    rw [List.dropWhile_append_of_pos hq, List.dropWhile_cons_of_neg (by simp)]
  rw [writtenTail, readTail_query, htake, hdrop]
  rfl

lemma writtenTail_of_ne {k : SchemeKind} {c : Char} (hc : c ≠ '?') (rest : Text) :
    writtenTail k (c :: rest) = '#' :: Percent.encode fragmentSet rest := by
  rw [writtenTail, readTail_of_ne hc]
  rfl

lemma encode_append_prefix (set : Percent.ByteSet) (t : Text) {s : Text}
    (hs : Percent.Stands set s) (w : Text) :
    Percent.encode set t ++ s <+: Percent.encode set (t ++ (s ++ w)) := by
  rw [Percent.encode_append, Percent.encode_append, Percent.encode_of_stands hs]
  exact (List.prefix_append_right_inj _).mpr (List.prefix_append _ _)

/-- Query and fragment go on. -/
lemma writtenTail_append_prefix {k : SchemeKind} {tail s w : Text} (hne : tail ≠ [])
    (hs : s = [] ∨ s = ['/']) (hw : Percent.Stands pathSet w) :
    writtenTail k tail ++ s <+: writtenTail k (tail ++ (s ++ w)) := by
  have hstands : ∀ set : Percent.ByteSet, set 0x2F = false → Percent.Stands set s := by
    intro set hset
    rcases hs with rfl | rfl
    · simp [Percent.Stands]
    · exact Percent.stands_cons.mpr ⟨⟨by decide, hset⟩, by simp [Percent.Stands]⟩
  have hquery : querySet k 0x2F = false := by
    unfold querySet
    cases k.isSpecial <;> decide
  obtain ⟨c, rest, rfl⟩ := List.exists_cons_of_ne_nil hne
  rw [List.cons_append]
  by_cases hc : c = '?'
  · subst hc
    rcases noHash_or_exists_hash rest with hrest | ⟨q, f, hq, rfl⟩
    · have hx : NoHash (s ++ w) := noHash_of_stands ((hstands _ (by decide)).append hw)
      rw [writtenTail_query hrest, writtenTail_query (hrest.append hx), List.cons_append]
      exact List.cons_prefix_cons.mpr
        ⟨rfl, encode_append_prefix (querySet k) rest (hstands _ hquery) w⟩
    · rw [List.append_assoc, List.cons_append, writtenTail_hash hq, writtenTail_hash hq,
        List.cons_append, List.append_assoc, List.cons_append]
      exact List.cons_prefix_cons.mpr ⟨rfl, (List.prefix_append_right_inj _).mpr
        (List.cons_prefix_cons.mpr
          ⟨rfl, encode_append_prefix fragmentSet f (hstands _ (by decide)) w⟩)⟩
  · rw [writtenTail_of_ne hc, writtenTail_of_ne hc, List.cons_append]
    exact List.cons_prefix_cons.mpr
      ⟨rfl, encode_append_prefix fragmentSet rest (hstands _ (by decide)) w⟩

/-! ## Behind the path of a file -/

/-- Behind two slashes a host ends at the next one, and the path of the file is read from there. -/
lemma exists_of_readFile_slashes {place host path : Text}
    (h : readFile ('/' :: '/' :: place) = .ok (host, path))
    (hslash : place.drop (place.takeWhile (!SchemeKind.file.isSlash ·)).length ≠ []) :
    ∃ start t, t <:+ place ∧ readFilePath start t = (host, path) ∧
      ∀ x, readFile ('/' :: '/' :: (place ++ x)) = .ok (readFilePath start (t ++ x)) := by
  have hplace : ∀ t, behindSlash? ('/' :: t) = some t := fun t => rfl
  unfold readFile at h ⊢
  rw [hplace] at h
  dsimp only at h
  rw [hplace] at h
  simp only [hplace, takeWhile_append_of_drop hslash, drop_takeWhile_append]
  dsimp only at h
  by_cases hdrive : isDriveLetter
      (withoutBreaks (place.takeWhile (!SchemeKind.file.isSlash ·))) = true
  · simp only [if_pos hdrive] at h ⊢
    exact ⟨[], place, List.suffix_refl place, Except.ok.inj h, fun x => rfl⟩
  · simp only [if_neg hdrive] at h ⊢
    obtain ⟨name, hname, h⟩ := exists_of_bind_eq_ok h
    simp only [hname, bind, Except.bind]
    by_cases hempty : name.isEmpty = true
    · simp only [if_pos hempty] at h ⊢
      exact ⟨name, _, List.drop_suffix _ place, Except.ok.inj h, fun x => rfl⟩
    · simp only [if_neg hempty] at h ⊢
      refine ⟨name, _, (List.drop_suffix 1 _).trans (List.drop_suffix _ place), Except.ok.inj h,
        fun x => ?_⟩
      rw [List.drop_append_of_le_length (List.length_pos_iff.mpr hslash)]
      rfl

section

variable {u v : Url} {w : Text}

/-- The path of a file goes on. -/
lemma body_prefix_of_file (hends : u.EndsInPath)
    (hu : readPlace .file u.body false = .ok (u.authority, u.path))
    (hv : readPlace .file (u.body ++ (slashFor u.body ++ w)) false = .ok (v.authority, v.path))
    (hw : Percent.Stands pathSet w)
    (hstays : StaysBelow 0 (w.splitOnP SchemeKind.file.isSlash) = true)
    (hkeeps : u.authority = some [] ∨ u.path ≠ ['/'] ∨
      ∀ piece ∈ w.splitOnP SchemeKind.file.isSlash, isDriveLetter piece = false) :
    u.body ++ slashFor u.body <+: v.body := by
  obtain ⟨host, hreadu, hau⟩ := exists_of_readPlace_file hu
  obtain ⟨host', hreadv, hav⟩ := exists_of_readPlace_file hv
  obtain ⟨tail, hpath⟩ : ∃ tail, u.path = '/' :: tail := by
    obtain ⟨start, t, hread⟩ := exists_readFilePath_of_readFile hreadu
    exact ⟨_, (congrArg Prod.snd hread).symm⟩
  have hne : u.path ≠ [] := hpath ▸ List.cons_ne_nil _ _
  have hbody : u.body = '/' :: '/' :: (host ++ u.path) := by
    rw [body_of_endsInPath hends, front, hau]
    rfl
  have hslash : (host ++ u.path).drop
      ((host ++ u.path).takeWhile (!SchemeKind.file.isSlash ·)).length ≠ [] :=
    drop_takeWhile_ne_nil (c := '/') (by simp [hpath]) rfl
  rw [hbody] at hreadu
  obtain ⟨start, t, hsuffix, hread, hnext⟩ := exists_of_readFile_slashes hreadu hslash
  have hfirst : (readFilePath start t).1 = host := congrArg Prod.fst hread
  have hsecond : (readFilePath start t).2 = u.path := congrArg Prod.snd hread
  have hs : (slashFor u.body = [] ∧ (t = [] ∨ t.getLast? = some '/')) ∨
      (slashFor u.body = ['/'] ∧ (readFilePath start t).2.getLast? ≠ some '/') := by
    have hlast := getLast?_body hends hne
    by_cases hend : u.body.getLast? = some '/'
    · have hall : (host ++ u.path).getLast? = some '/' := by
        rw [List.getLast?_append, ← hlast, hend]
        rfl
      exact .inl ⟨if_pos hend, getLast?_of_suffix hsuffix hall⟩
    · exact .inr ⟨if_neg hend, by rwa [hsecond, ← hlast]⟩
  obtain ⟨hsame, hprefix⟩ := readFilePath_append_prefix hw hstays hs (by
    rw [hfirst, hsecond]
    exact hkeeps.imp_left fun hnone => Option.some.inj (hau.symm.trans hnone))
  have hall : ∀ x, readFile (u.body ++ x) = .ok (readFilePath start (t ++ x)) := by
    intro x
    rw [hbody]
    exact hnext x
  rw [hall] at hreadv
  have hpair := Except.ok.inj hreadv
  rw [hfirst] at hsame
  refine body_prefix_of_path hends ?_ ?_
  · rw [hav, hau, ← hsame, hpair]
  · rw [hsecond, hpair] at hprefix
    exact hprefix

/-- What is written behind a query or a fragment belongs to it. -/
lemma placeOf_tailOf_append {t x : Text} (h : tailOf t ≠ []) (hx : withoutBreaks x = x) :
    placeOf (t ++ x) = placeOf t ∧ tailOf (t ++ x) = tailOf t ++ x := by
  have hdrop : t.drop (t.takeWhile (!endsPath ·)).length ≠ [] := by
    intro hnil
    rw [tailOf, placeOf, hnil] at h
    exact h rfl
  have hplace : placeOf (t ++ x) = placeOf t := takeWhile_append_of_drop hdrop x
  refine ⟨hplace, ?_⟩
  rw [withoutBreaks] at hx
  rw [tailOf, hplace, placeOf, drop_takeWhile_append, withoutBreaks, List.filter_append, hx]
  rfl

/-- Query and fragment go on. -/
lemma body_prefix_of_tail (hends : ¬u.EndsInPath) (hu : readRest u.scheme u.body = .ok u)
    (hv : readRest u.scheme (u.body ++ (slashFor u.body ++ w)) = .ok v)
    (hw : Percent.Stands pathSet w) : u.body ++ slashFor u.body <+: v.body := by
  have hx : Percent.Stands pathSet (slashFor u.body ++ w) := (stands_slashFor u.body).append hw
  obtain ⟨hplace, -, hquery, hfragment⟩ := readPlace_of_readRest hu
  obtain ⟨hplace', -, hquery', hfragment'⟩ := readPlace_of_readRest hv
  have htail : tailOf u.body ≠ [] := by
    intro hnil
    rw [hnil] at hquery hfragment
    exact hends ⟨hquery, hfragment⟩
  obtain ⟨hplaceOf, htailOf⟩ := placeOf_tailOf_append htail (withoutBreaks_of_stands hx)
  have hmore : (!(tailOf u.body).isEmpty) = true := by simpa using htail
  have hmore' : (!(tailOf u.body ++ (slashFor u.body ++ w)).isEmpty) = true := by simp [htail]
  rw [hmore] at hplace
  rw [htailOf] at hquery' hfragment'
  rw [hplaceOf, htailOf, hmore', hplace] at hplace'
  obtain ⟨hauthority, hpath⟩ := Prod.ext_iff.mp (Except.ok.inj hplace')
  dsimp only at hauthority hpath
  have hfront : v.front = u.front := by rw [front, front, hauthority, hpath]
  have hback : u.back = writtenTail (schemeKind u.scheme) (tailOf u.body) := by
    rw [back, hquery, hfragment]
    rfl
  have hback' : v.back = writtenTail (schemeKind u.scheme)
      (tailOf u.body ++ (slashFor u.body ++ w)) := by
    rw [back, hquery', hfragment']
    rfl
  have hleft : u.body ++ slashFor u.body =
      u.front ++ u.path ++ (u.back ++ slashFor u.body) := by
    rw [← List.append_assoc, ← body]
  have hright : v.body = u.front ++ u.path ++ v.back := by rw [body, hfront, ← hpath]
  rw [hleft, hright, hback, hback']
  exact (List.prefix_append_right_inj _).mpr ( writtenTail_append_prefix htail
    (slashFor_eq_or u.body) hw)

/-- Whether what is written behind an address stays in it: an opaque path, a query or a fragment
goes on whatever is written, a path made of segments as long as no `..` leads out of what is
written. In the path of a file the letter of a drive in first place takes the host away. -/
def StaysIn (u : Url) (w : Text) : Prop :=
  (u.authority = none ∧ u.path.head? ≠ some '/') ∨ ¬u.EndsInPath ∨
    (StaysBelow 0 (w.splitOnP (schemeKind u.scheme).isSlash) = true ∧
      (schemeKind u.scheme = .file → u.authority = some [] ∨ u.path ≠ ['/'] ∨
        ∀ piece ∈ w.splitOnP SchemeKind.file.isSlash, isDriveLetter piece = false))

/-- The path goes on in each form of an address. -/
lemma body_prefix_of_endsInPath (hends : u.EndsInPath)
    (hdrop : Text.dropEndWhile (· ≤ ' ') u.body = u.body) (hu : readRest u.scheme u.body = .ok u)
    (hv : readRest u.scheme (u.body ++ (slashFor u.body ++ w)) = .ok v)
    (hw : Percent.Stands pathSet w) (hhead : w.head? ≠ some '/') (hstays : StaysIn u w) :
    u.body ++ slashFor u.body <+: v.body := by
  have hx : Percent.Stands pathSet (slashFor u.body ++ w) := (stands_slashFor u.body).append hw
  obtain ⟨hplace, -, hquery, hfragment⟩ := readPlace_of_readRest hu
  obtain ⟨hplace', -, -, -⟩ := readPlace_of_readRest hv
  have htail := eq_nil_of_readTail (hquery ▸ hends.1) (hfragment ▸ hends.2)
  have hself := placeOf_eq_self htail
  have hself' : placeOf (u.body ++ (slashFor u.body ++ w)) =
      u.body ++ (slashFor u.body ++ w) := by
    have hall := placeOf_of_stands hx
    rw [placeOf] at hself hall
    rw [placeOf, List.takeWhile_append, if_pos (congrArg List.length hself), hall]
  have htail' : tailOf (u.body ++ (slashFor u.body ++ w)) = [] := by
    rw [tailOf, hself', List.drop_length]
    rfl
  rw [htail, hself] at hplace
  rw [htail', hself'] at hplace'
  by_cases hkind : schemeKind u.scheme = .file
  · rw [hkind] at hplace hplace'
    obtain ⟨host, -, hhost⟩ := exists_of_readPlace_file hplace
    rcases hstays with ⟨hnone, -⟩ | hnot | ⟨hbelow, hkeeps⟩
    · rw [hnone] at hhost
      cases hhost
    · exact absurd hends hnot
    · rw [hkind] at hbelow
      exact body_prefix_of_file hends hplace hplace' hw hbelow (hkeeps hkind)
  · rw [readPlace, if_neg hkind] at hplace hplace'
    have hkeep := withoutBreaks_of_stands hx
    rw [withoutBreaks, List.filter_append, ← withoutBreaks, ← withoutBreaks, hkeep] at hplace'
    have hmade : ¬(u.authority = none ∧ u.path.head? ≠ some '/') →
        StaysBelow 0 (w.splitOnP (schemeKind u.scheme).isSlash) = true := fun hnot =>
      ((hstays.resolve_left hnot).resolve_left fun hnot => hnot hends).1
    have hform := form_of_readGeneric hplace
    generalize ht : withoutBreaks u.body = t at hform hplace'
    generalize ha : u.authority = authority at hform
    generalize hp : u.path = path at hform
    cases hform with
    | @network t a rest hspecial hread =>
      have hbelow := hmade (by rw [ha]; rintro ⟨⟨⟩, -⟩)
      obtain ⟨hav, hpath⟩ :=
        path_prefix_of_network hspecial hends ht hread hp hplace' hw hbelow
      exact body_prefix_of_path hends (hav.trans ha.symm) hpath
    | authority hother hread =>
      have hbelow := hmade (by rw [ha]; rintro ⟨⟨⟩, -⟩)
      exact body_prefix_of_authority hother hends ht hread ha hp hplace' hw hbelow
    | segments hother hslash =>
      have hbelow := hmade (by rw [hp]; exact fun hopaque => hopaque.2 rfl)
      exact body_prefix_of_segments hother hends ht hslash ha hp hplace' hw hhead hbelow
    | opaquePath hother hslash =>
      exact body_prefix_of_opaque hother hends hdrop ht hslash ha hp hplace' hw hhead

/-- What is written behind an address and stays in it is read as an address that starts with it. -/
theorem text_prefix_of_parse_append (hu : parse u.text = .ok u)
    (hv : parse (u.text ++ slashFor u.text ++ w) = .ok v) (hw : Percent.Stands pathSet w)
    (hhead : w.head? ≠ some '/') (hstays : StaysIn u w) :
    u.text ++ slashFor u.text <+: v.text := by
  obtain ⟨hscheme, hrest⟩ := readRest_body hu
  have hdrop := dropEndWhile_body hu
  have hx : Percent.Stands pathSet (slashFor u.body ++ w) := (stands_slashFor u.body).append hw
  have hslash : slashFor u.text = slashFor u.body := by
    rcases eq_or_ne u.body [] with hnil | hne
    · rw [text, hnil, slashFor, List.getLast?_concat]
      rfl
    · have hlast : u.text.getLast? = u.body.getLast? := by
        have htext : u.text = (u.scheme ++ [':']) ++ u.body := by simp [text]
        rw [htext, List.getLast?_append, Option.or_of_isSome (by simpa using hne)]
      rw [slashFor, slashFor, hlast]
  have hvisible : Text.dropEndWhile (· ≤ ' ') (u.body ++ (slashFor u.body ++ w)) =
      u.body ++ (slashFor u.body ++ w) := by
    rcases eq_or_ne (slashFor u.body ++ w) [] with hnil | hne
    · rw [hnil, List.append_nil, hdrop]
    · exact ((endsVisibly_of_pathSet hx).append_left hne u.body).dropEndWhile_eq
  have htext : u.text ++ slashFor u.text ++ w =
      u.scheme ++ ':' :: (u.body ++ (slashFor u.body ++ w)) := by
    rw [hslash, text]
    simp
  rw [htext, parse_of_isScheme hscheme, hvisible] at hv
  have hbody : u.body ++ slashFor u.body <+: v.body := by
    by_cases hends : u.EndsInPath
    · exact body_prefix_of_endsInPath hends hdrop hrest hv hw hhead hstays
    · exact body_prefix_of_tail hends hrest hv hw
  rw [hslash, text, text, (readPlace_of_readRest hv).2.1, List.append_assoc, List.cons_append]
  exact (List.prefix_append_right_inj _).mpr (List.cons_prefix_cons.mpr ⟨rfl, hbody⟩)

end

end Url

end ContentMounts
