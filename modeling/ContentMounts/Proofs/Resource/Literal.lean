import ContentMounts.Proofs.Resource.Readings

/-!
# The literal address of a resource

The literal address of a resource is what the resource is shown as. Whatever the resource was made
from, this address is that of a file and is read again (`Constructed.exists_parse`), and it spells
the path of the resource but for dots that say nothing. So a resource made from it, on whatever
platform, is the same one (`exists_ofUri_literal`).

An address written for a path need not be read as what was written: its dots are folded, and a name
like `C|` at its start is taken for a drive. It is enough here that it is read at all, since the
path is taken from the text.
-/

namespace ContentMounts

namespace Url

/-- The address written for a file is read as some address, whatever its parts are. -/
lemma exists_parse_fileAddress {pieces : List Text}
    (h : ∀ piece ∈ pieces, Percent.Stands pathSet piece) :
    ∃ u, parse (fileAddress pieces).text = .ok u := by
  have hscheme : IsScheme "file".toList := ⟨by decide, by decide, by decide⟩
  have hstands : Percent.Stands pathSet ('/' :: '/' :: joinSegments pieces) :=
    Percent.stands_cons.mpr ⟨isPlain_slash, Percent.stands_cons.mpr ⟨isPlain_slash,
      stands_joinSegments h⟩⟩
  have hread : readFile ('/' :: '/' :: joinSegments pieces) =
      .ok (readFilePath [] (joinSegments pieces)) :=
    Uri.readFile_hosted (.inl rfl) rfl
  rw [text_fileAddress, parse_of_isScheme hscheme, dropEndWhile_of_stands hstands, readRest,
    placeOf_of_stands hstands, readPlace, if_pos (by decide), hread]
  exact ⟨_, rfl⟩

end Url

namespace Uri

/-- What spells a path is read as a file address. -/
lemma scheme_of_literalPath? {input : Text} {raw : Path} {u : Url}
    (hraw : literalPath? input = some raw) (hu : Url.parse input = .ok u) :
    u.scheme = "file".toList := by
  obtain ⟨scheme, rest, path, rfl, -, hfile, -, -⟩ := literalPath?_eq_some_iff.mp hraw
  obtain ⟨hlower, hhead, hall⟩ := isScheme_of_file hfile
  rw [Url.parse_append hhead hall, hlower] at hu
  obtain ⟨place, -, rfl⟩ := exists_of_map_eq_ok hu
  rfl

end Uri

namespace FileResource

variable {plat : Platform} {workingDir : Path} {r : FileResource}

/-- An address that is read and spells a path makes a resource on every platform. -/
lemma ofUri_eq_ok (plat : Platform) {input : Text} {u : Url} {raw : Path}
    (hu : Url.parse input = .ok u) (hraw : Uri.literalPath? input = some raw) :
    ofUri plat input = .ok ⟨u, input, raw.collapse, plat.detect true raw raw.collapse⟩ := by
  have hscheme := Uri.scheme_of_literalPath? hraw hu
  have hdirect : Uri.isDirectScheme "file".toList = true := by decide
  have hread : Uri.parseAbsolute input = .ok u := by
    rw [Uri.parseAbsolute, hu]
  have hresolve : plat.resolveUri input =
      .ok ⟨raw.collapse, plat.detect true raw raw.collapse⟩ := by
    simp only [Platform.resolveUri, hread, hraw, bind, Except.bind, hscheme]
    rfl
  simp only [ofUri, hread, hresolve, bind, Except.bind, hscheme, hdirect]
  rfl

/-- The literal address of a resource is read, and the path of the resource is at the root. -/
lemma Constructed.exists_parse (hr : Constructed plat workingDir r) :
    (∃ u, Url.parse r.literal = .ok u) ∧ r.path.isAbsolute = true := by
  have hof : ∀ {input : Text}, ofUri plat input = .ok r →
      (∃ u, Url.parse r.literal = .ok u) ∧ r.path.isAbsolute = true := by
    intro input hr
    obtain ⟨raw, hof⟩ := exists_isOfUri hr
    rw [hof.literal_eq, hof.path_eq, Path.isAbsolute_collapse]
    exact ⟨⟨r.uri, hof.parse_eq⟩, Uri.isAbsolute_of_literalPath? hof.literalPath?_eq⟩
  rcases hr with hr | hr | ⟨-, hr⟩
  · exact hof hr
  · have hmade := isOfPath_of_ofPath hr
    rw [hmade.literal_eq, hmade.uri_eq]
    refine ⟨Url.exists_parse_fileAddress fun piece hpiece => ?_, hmade.isAbsolute⟩
    obtain ⟨s, -, rfl⟩ := List.mem_map.mp hpiece
    exact Url.stands_component s
  · exact hof hr

/-- From its literal address every resource is made again, on any platform. -/
theorem exists_ofUri_literal (hr : Constructed plat workingDir r) (other : Platform) :
    ∃ s, ofUri other r.literal = .ok s ∧ s.same r = true ∧ s.literal = r.literal := by
  obtain ⟨⟨u, hu⟩, habs⟩ := hr.exists_parse
  obtain ⟨raw, hraw, hpath⟩ := hr.exists_literalPath?
  have hrawAbs : raw.collapse.isAbsolute = true := by
    rw [Path.isAbsolute_collapse]
    exact Uri.isAbsolute_of_literalPath? hraw
  refine ⟨_, ofUri_eq_ok other hu hraw, ?_, rfl⟩
  have hparts : raw.collapse.components = r.path.components := by
    rcases hpath with hpath | ⟨-, hsegments⟩
    · rw [hpath]
    · rw [Path.components, Path.components, hrawAbs, habs, if_pos rfl, if_pos rfl,
        Path.segments_collapse, hsegments, List.filter_filter]
      simp
  rw [same, Path.sameComponents, hrawAbs, habs, hparts]
  simp

/-- A path at the root makes a resource, with the address that is written for its parts. -/
lemma exists_ofPath (plat : Platform) (workingDir : Path) {raw : Path}
    (habs : raw.isAbsolute = true) :
    ∃ r, ofPath plat workingDir raw = .ok r ∧
      r.literal = (Url.fileAddress (Url.writtenNames raw.collapse.components)).text := by
  have hpath : (plat.resolvePath workingDir raw).path = raw.collapse := if_pos habs
  have huri : Url.ofPath? raw.collapse =
      some (Url.fileAddress (Url.writtenNames raw.collapse.components)) :=
    if_pos ((Path.isAbsolute_collapse raw).trans habs)
  unfold ofPath
  dsimp only
  rw [hpath, huri]
  exact ⟨_, rfl, rfl⟩

/-! ### A path that an address has to escape -/

/-- A path with dots, with bytes that are no text, and with characters that mean something else in
an address. -/
def oddPath : Path := ⟨Utf8.encode "/C|//./../50% a?#\\".toList ++ [0xFF]⟩

/-- The path comes back from the address that is written for it, but for the dot. -/
theorem exists_ofUri_oddPath :
    ∃ r, ofPath pageHost.platform (Host.pathOf []) oddPath = .ok r ∧
      r.literal = "file:///C|/../50%25%20a%3F%23%5C%FF".toList ∧
      ∃ s, ofUri pageHost.platform r.literal = .ok s ∧ s.same r = true ∧ s.literal = r.literal := by
  have habs : oddPath.isAbsolute = true := rfl
  obtain ⟨r, hr, hliteral⟩ := exists_ofPath pageHost.platform (Host.pathOf []) habs
  exact ⟨r, hr, hliteral, exists_ofUri_literal (.fromPath hr) pageHost.platform⟩

end FileResource

end ContentMounts
