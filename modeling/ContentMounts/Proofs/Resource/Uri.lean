import ContentMounts.Proofs.Path.Spelled
import ContentMounts.Proofs.Url.File
import ContentMounts.Resource.Uri

/-!
# Addresses of resources

The path that a file address spells out is read from its text, without a look at the host. It stands
between the scheme and the query, by itself or behind the name of this host (`Uri.Places`); one of
the two is the case, and only one, since a name is announced by two slashes. The path starts at the
root, since an address without a slash behind its host spells none. Behind the path there may be a
query or a fragment (`Uri.hasTail`).
-/

namespace ContentMounts

namespace Uri

/-- The names of this host in a file address: none, or `localhost`. -/
def IsHere (host : Text) : Prop :=
  host = [] ∨ Text.sameIgnoringCase host "localhost".toList = true

/-- The path that stands in a file address between the scheme and the query, by itself or behind the
name of this host. -/
inductive Places : Text → Text → Prop
  | bare {path : Text} : path.head? = some '/' → ¬['/', '/'] <+: path → Places path path
  | hosted {host path : Text} : IsHere host → path.head? = some '/' →
      Places ('/' :: '/' :: (host ++ path)) path

lemma IsHere.slash_notMem {host : Text} (h : IsHere host) : '/' ∉ host := by
  rcases h with rfl | hlocal
  · exact List.not_mem_nil
  · intro hin
    have hlower : '/' ∈ Text.lower host := by
      have := List.mem_map_of_mem (f := Char.toLower) hin
      exact this
    rw [Text.sameIgnoringCase, beq_iff_eq] at hlocal
    rw [hlocal] at hlower
    revert hlower
    decide

lemma Places.head? {place path : Text} (h : Places place path) : path.head? = some '/' := by
  rcases h with ⟨hhead, -⟩ | ⟨-, hhead⟩
  · exact hhead
  · exact hhead

/-- The name of this host and a path behind it, taken apart. -/
lemma IsHere.takeWhile_append {host path : Text} (h : IsHere host) (hhead : path.head? = some '/') :
    (host ++ path).takeWhile (· != '/') = host := by
  obtain ⟨rest, rfl⟩ := List.head?_eq_some_iff.mp hhead
  rw [List.takeWhile_append_of_pos, List.takeWhile_cons_of_neg (by simp), List.append_nil]
  intro c hc
  simpa using fun heq : c = '/' => h.slash_notMem (heq ▸ hc)

lemma isHere_iff {host : Text} :
    IsHere host ↔ (host.isEmpty || Text.sameIgnoringCase host "localhost".toList) = true := by
  rw [IsHere, Bool.or_eq_true, List.isEmpty_iff]

lemma exists_places_of_literalPath? {input : Text} {raw : Path}
    (h : literalPath? input = some raw) : ∃ scheme rest path, input = scheme ++ ':' :: rest ∧
      ':' ∉ scheme ∧ Text.sameIgnoringCase scheme "file".toList = true ∧
      Places (Url.placeOf rest) path ∧ raw = Path.spelled path := by
  unfold literalPath? at h
  obtain ⟨⟨scheme, rest⟩, hcut, h⟩ := Option.bind_eq_some_iff.mp h
  obtain ⟨hinput, hcolon⟩ := cut?_singleton_eq_some_iff.mp hcut
  dsimp only at h
  split at h
  · cases h
  · next hfile =>
    suffices ∃ path, Places (Url.placeOf rest) path ∧ raw = Path.spelled path by
      obtain ⟨path, hplaces, hraw⟩ := this
      exact ⟨scheme, rest, path, hinput, hcolon, by simpa using hfile, hplaces, hraw⟩
    split at h
    · next authority hplace =>
      split at h
      · next hhere =>
        obtain ⟨hhead, hraw⟩ := Option.ite_none_right_eq_some.mp h
        refine ⟨_, ?_, (Option.some.inj hraw).symm⟩
        have hsplit := List.prefix_iff_eq_append.mp (List.takeWhile_prefix (· != '/')
          (l := authority))
        have hhosted := Places.hosted (isHere_iff.mpr hhere) hhead
        rw [hsplit] at hhosted
        rwa [Url.placeOf, hplace]
      · cases h
    · next hbare =>
      obtain ⟨hhead, hraw⟩ := Option.ite_none_right_eq_some.mp h
      refine ⟨_, .bare hhead ?_, (Option.some.inj hraw).symm⟩
      rintro ⟨authority, hplace⟩
      exact hbare authority hplace.symm

lemma literalPath?_of_places {scheme rest path : Text} (hcolon : ':' ∉ scheme)
    (hfile : Text.sameIgnoringCase scheme "file".toList = true)
    (hplaces : Places (Url.placeOf rest) path) :
    literalPath? (scheme ++ ':' :: rest) = some (Path.spelled path) := by
  unfold literalPath?
  rw [cut?_singleton_eq_some_iff.mpr ⟨rfl, hcolon⟩]
  show (if (!Text.sameIgnoringCase scheme "file".toList) = true then none else _) = _
  rw [hfile, if_neg (by simp)]
  change Places (rest.takeWhile fun c => !Url.endsPath c) path at hplaces
  generalize (rest.takeWhile fun c => !Url.endsPath c) = place at hplaces
  rcases hplaces with ⟨hhead, hbare⟩ | ⟨hhere, hhead⟩
  · dsimp only
    split
    · next authority => exact absurd ⟨authority, rfl⟩ hbare
    · exact if_pos hhead
  · next host =>
    show (if (((host ++ path).takeWhile (· != '/')).isEmpty || Text.sameIgnoringCase
      ((host ++ path).takeWhile (· != '/')) "localhost".toList) = true then _ else _) = _
    rw [hhere.takeWhile_append hhead, if_pos (isHere_iff.mp hhere), List.drop_left]
    exact if_pos hhead

/-- A text spells a path if it is a file address whose path is by itself or behind the name of this
host. -/
theorem literalPath?_eq_some_iff {input : Text} {raw : Path} :
    literalPath? input = some raw ↔ ∃ scheme rest path, input = scheme ++ ':' :: rest ∧
      ':' ∉ scheme ∧ Text.sameIgnoringCase scheme "file".toList = true ∧
      Places (Url.placeOf rest) path ∧ raw = Path.spelled path := by
  constructor
  · exact exists_places_of_literalPath?
  · rintro ⟨scheme, rest, path, rfl, hcolon, hfile, hplaces, rfl⟩
    exact literalPath?_of_places hcolon hfile hplaces

/-- The path written in a file address is at the root. -/
lemma isAbsolute_of_literalPath? {input : Text} {raw : Path}
    (h : literalPath? input = some raw) : raw.isAbsolute = true := by
  obtain ⟨scheme, rest, path, -, -, -, hplaces, rfl⟩ := literalPath?_eq_some_iff.mp h
  obtain ⟨behind, hpath⟩ := List.head?_eq_some_iff.mp hplaces.head?
  rw [Path.isAbsolute, Path.spelled, hpath, Percent.decode_slash]
  rfl

/-- A scheme of files is a scheme, in whatever case it is written. -/
lemma isScheme_of_file {scheme : Text} (h : Text.sameIgnoringCase scheme "file".toList = true) :
    Text.lower scheme = "file".toList ∧ scheme.head?.any Char.isAlpha = true ∧
      scheme.all Url.isSchemeChar = true := by
  rw [Text.sameIgnoringCase, beq_iff_eq] at h
  have hlower : Text.lower "file".toList = "file".toList := by decide
  have hletters : ∀ c ∈ scheme, c.isAlpha = true ∧ Url.isSchemeChar c = true := by
    intro c hc
    have hin : c.toLower ∈ "file".toList := by
      rw [← hlower, ← h]
      exact List.mem_map_of_mem hc
    have hfacts : "file".toList.all
        (fun d => decide (d.toNat < 0x80) && d.isAlpha && d.toUpper.isAlpha) = true := by
      decide
    have hletter := List.all_eq_true.mp hfacts c.toLower hin
    simp only [Bool.and_eq_true, decide_eq_true_eq] at hletter
    obtain ⟨⟨hd, halpha⟩, hupper⟩ := hletter
    have hc : c.isAlpha = true := by
      rcases Url.eq_of_toLower hd rfl with heq | heq
      · rwa [← heq] at halpha
      · rwa [← heq] at hupper
    exact ⟨hc, by simp [Url.isSchemeChar, Char.isAlphanum, hc]⟩
  refine ⟨h.trans hlower, ?_, List.all_eq_true.mpr fun c hc => (hletters c hc).2⟩
  cases scheme with
  | nil => cases h
  | cons c rest => exact (hletters c List.mem_cons_self).1

lemma not_places_nil {path : Text} : ¬Places [] path := by
  intro h
  generalize hplace : ([] : Text) = place at h
  rcases h with ⟨hhead, -⟩ | ⟨-, -⟩
  · rw [← hplace] at hhead
    cases hhead
  · cases hplace

/-- Behind two slashes stand the name of this host and the path. -/
lemma Places.exists_host {authority path : Text} (h : Places ('/' :: '/' :: authority) path) :
    ∃ host, IsHere host ∧ authority = host ++ path := by
  generalize hplace : '/' :: '/' :: authority = place at h
  rcases h with ⟨-, hbare⟩ | ⟨hhere, -⟩
  · exact absurd ⟨authority, hplace⟩ hbare
  · simp only [List.cons.injEq, true_and] at hplace
    exact ⟨_, hhere, hplace⟩

/-- One path at most stands in the place of an address that holds it. -/
lemma Places.unique {place path other : Text} (h : Places place path)
    (hother : Places place other) : path = other := by
  rcases h with ⟨-, hbare⟩ | ⟨hhere, hhead⟩
  · rcases hother with ⟨-, -⟩ | ⟨-, -⟩
    · rfl
    · exact absurd ⟨_, rfl⟩ hbare
  · next host =>
    obtain ⟨host', hhere', hplace⟩ := hother.exists_host
    have hhost : host = host' := by
      rw [← hhere.takeWhile_append hhead, hplace, hhere'.takeWhile_append hother.head?]
    rw [hhost] at hplace
    exact List.append_cancel_left hplace

/-! ## Behind the scheme -/

/-- Behind a scheme of files stands the place that holds the path. -/
lemma literalPath?_append_cons {scheme rest : Text} {raw : Path} (hcolon : ':' ∉ scheme)
    (hfile : Text.sameIgnoringCase scheme "file".toList = true) :
    literalPath? (scheme ++ ':' :: rest) = some raw ↔
      ∃ path, Places (Url.placeOf rest) path ∧ raw = Path.spelled path := by
  rw [literalPath?_eq_some_iff]
  constructor
  · rintro ⟨scheme', rest', path, hinput, hcolon', -, hplaces, hraw⟩
    have hcut : Text.cut? [':'] (scheme ++ ':' :: rest) = some (scheme, rest) :=
      cut?_singleton_eq_some_iff.mpr ⟨rfl, hcolon⟩
    rw [hinput, cut?_singleton_eq_some_iff.mpr ⟨rfl, hcolon'⟩] at hcut
    obtain ⟨-, rfl⟩ := Prod.mk.inj (Option.some.inj hcut)
    exact ⟨path, hplaces, hraw⟩
  · rintro ⟨path, hplaces, hraw⟩
    exact ⟨scheme, rest, path, rfl, hcolon, hfile, hplaces, hraw⟩

/-- Whether the path is not the end of an address: a query or a fragment stands behind it. -/
def hasTail (literal : Text) : Bool := literal.any Url.endsPath

/-- No scheme of files ends the path. -/
lemma hasTail_append_cons {scheme rest : Text}
    (hfile : Text.sameIgnoringCase scheme "file".toList = true) :
    hasTail (scheme ++ ':' :: rest) = rest.any Url.endsPath := by
  have hscheme : scheme.any Url.endsPath = false := by
    rw [List.any_eq_false]
    intro c hc
    simp [(Url.schemeChar_of_mem (isScheme_of_file hfile).2.2 hc).not_end]
  rw [hasTail, List.any_append, List.any_cons, hscheme]
  rfl

lemma placeOf_eq_self {rest : Text} (h : rest.any Url.endsPath = false) :
    Url.placeOf rest = rest := by
  rw [List.any_eq_false] at h
  rw [Url.placeOf, List.takeWhile_eq_self_iff]
  intro c hc
  simpa using h c hc

lemma placeOf_append_cons {place behind : Text} {d : Char}
    (h : ∀ c ∈ place, Url.endsPath c = false) (hd : Url.endsPath d = true) :
    Url.placeOf (place ++ d :: behind) = place := by
  rw [Url.placeOf, List.takeWhile_append_of_pos, List.takeWhile_cons_of_neg (by simp [hd]),
    List.append_nil]
  intro c hc
  rw [h c hc, Bool.not_false]

/-- The path ends at the first character that ends it. -/
lemma exists_tail {rest : Text} (h : rest.any Url.endsPath = true) :
    ∃ place d behind, rest = place ++ d :: behind ∧ (∀ c ∈ place, Url.endsPath c = false) ∧
      Url.endsPath d = true := by
  obtain ⟨d, hfind⟩ := Option.isSome_iff_exists.mp (List.find?_isSome.mpr (List.any_eq_true.mp h))
  obtain ⟨hd, place, behind, hrest, hplace⟩ := List.find?_eq_some_iff_append.mp hfind
  exact ⟨place, d, behind, hrest, fun c hc => by simpa using hplace c hc, hd⟩

end Uri

end ContentMounts
