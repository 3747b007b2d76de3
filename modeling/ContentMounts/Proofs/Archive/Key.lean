import ContentMounts.Proofs.Archive.Root

/-!
# Keys of archives

A pool shares one mount among all addresses that lead into the same archive under the same scheme.
What it compares are the root addresses, as they are written. Two of them are the same exactly if the
schemes are and the wrapped containers have the same real path (`root_eq_iff`): the real path absorbs
every spelling of the container, and it can be read off the root address, since each of its names is
escaped for itself.
-/

namespace ContentMounts

namespace Archive

variable {h : Host}

/-- The real path of the container that an address wraps, if that is a file address of this host and
leads anywhere. -/
def realContainer? (h : Host) (u : Url) : Option Path := do
  let c ← Uri.container? u
  let p ← if c.scheme = "file".toList then c.toPath? else none
  (h.canonicalize p).toOption

/-- The path that goes with a root address is the real path of the container, and the root address is
made from it. -/
lemma realContainer?_of_root {u r : Url} {path : Path} (hroot : root h u = .ok (r, path)) :
    realContainer? h u = some path ∧ rootOf u.scheme path = .ok r := by
  obtain ⟨c, p, hc, hfile, hp, hreal, hof⟩ := root_eq_ok_iff.mp hroot
  refine ⟨?_, hof⟩
  simp only [realContainer?, hc, hfile, hp, hreal, if_true, bind, Option.bind]
  rfl

/-- The names of a path can be read off the address of its file. -/
lemma rootBody_injective {names others : List Name} (hnames : ∀ s ∈ names, Name.IsProper s)
    (hothers : ∀ s ∈ others, Name.IsProper s) (heq : rootBody names = rootBody others) :
    names = others := by
  have htext : (Url.fileAddress (Url.writtenNames names)).text =
      (Url.fileAddress (Url.writtenNames others)).text := List.append_cancel_right heq
  have haddress : Url.fileAddress (Url.writtenNames names) =
      Url.fileAddress (Url.writtenNames others) := by
    have hparse := Url.parse_fileAddress (Url.isWritten_of_mem_writtenNames hnames)
    rw [htext, Url.parse_fileAddress (Url.isWritten_of_mem_writtenNames hothers)] at hparse
    exact (Except.ok.inj hparse).symm
  -- a path has the same names with a separator behind it
  have hsegments : ∀ {names : List Name}, (∀ s ∈ names, Name.IsProper s) →
      (Url.fileAddress (Url.writtenNames names)).toPath?.map Path.segments = some names := by
    intro names hnames
    have hplain : (Path.ofSegments true names).segments = names :=
      Path.segments_ofSegments true fun s hs => (hnames s hs).toIsSegment
    rw [Url.toPath?_fileAddress hnames, Option.map_some]
    split
    · rw [Path.segments_append_slash]
      exact congrArg some ((List.append_nil _).trans hplain)
    · rw [hplain]
  have hboth := hsegments hnames
  rw [haddress, hsegments hothers] at hboth
  exact (Option.some_inj.mp hboth).symm

/-- A root address is the one for the names of the real path. -/
lemma exists_rootAddress {input : Text} {u r : Url} {path : Path} (hu : Url.parse input = .ok u)
    (hroot : root h u = .ok (r, path)) :
    ∃ names, (∀ s ∈ names, Name.IsProper s) ∧ path = Host.pathOf names ∧
      r = rootAddress u.scheme names ∧ Url.parse r.text = .ok r := by
  obtain ⟨c, p, hc, -, hp, hreal, hof⟩ := root_eq_ok_iff.mp hroot
  have hscheme := (Url.exists_readRest_of_parse hu).1
  have hkind := schemeKind_of_container? hu hc
  obtain ⟨l, -, rfl, hnames⟩ := Host.exists_walks_of_canonicalize (isAbsolute_of_toPath? hp) hreal
  have haddress := rootOf_pathOf hscheme hkind hnames
  obtain rfl : rootAddress u.scheme l.names = r := Except.ok.inj (haddress.symm.trans hof)
  have hhead : (rootBody l.names).head? ≠ some '/' := by
    rw [rootBody, Url.text_fileAddress]
    exact fun heq => absurd (Option.some.inj heq) (by decide)
  refine ⟨l.names, hnames, rfl, rfl, ?_⟩
  rw [(text_rootAddress u.scheme l.names).1]
  exact Url.parse_of_opaque hscheme hkind (stands_rootBody hnames) hhead

/-- Two addresses that have root addresses have the same one exactly if they have the same scheme
and the containers that they wrap have the same real path. Root addresses are the same if they are
written the same. -/
theorem root_eq_iff {input other : Text} {u v r s : Url} {path path' : Path}
    (hu : Url.parse input = .ok u) (hv : Url.parse other = .ok v)
    (hr : root h u = .ok (r, path)) (hs : root h v = .ok (s, path')) :
    (r.text = s.text ↔ r = s) ∧
    (r = s ↔ u.scheme = v.scheme ∧ realContainer? h u = realContainer? h v) ∧
    realContainer? h u = some path ∧ realContainer? h v = some path' := by
  obtain ⟨hpath, hof⟩ := realContainer?_of_root hr
  obtain ⟨hpath', hof'⟩ := realContainer?_of_root hs
  obtain ⟨names, hnames, hnamed, haddress, hparse⟩ := exists_rootAddress hu hr
  obtain ⟨names', hnames', hnamed', haddress', hparse'⟩ := exists_rootAddress hv hs
  refine ⟨⟨fun htext => ?_, congrArg Url.text⟩, ⟨fun heq => ?_, ?_⟩, hpath, hpath'⟩
  · rw [htext, hparse'] at hparse
    exact (Except.ok.inj hparse).symm
  · rw [haddress, haddress'] at heq
    have hbody : rootBody names = rootBody names' := congrArg Url.path heq
    have hscheme := congrArg Url.scheme heq
    rw [hpath, hpath', hnamed, hnamed', rootBody_injective hnames hnames' hbody]
    exact ⟨hscheme, rfl⟩
  · rintro ⟨hscheme, hreal⟩
    rw [hpath, hpath', Option.some_inj] at hreal
    rw [hscheme, hreal] at hof
    exact Except.ok.inj (hof.symm.trans hof')

/-- Two spellings of one archive share a root address, whichever entries they mean, and another
archive has another one. -/
theorem root_eq_of_shelf :
    ∃ u v w r s t path path', Url.parse "jar:file:///my%20files/b!!/x".toList = .ok u ∧
      Url.parse "JAR:FILE://localhost/a%21/../%6dy%20files/./b%21?q!/y#z".toList = .ok v ∧
      Url.parse "jar:file:///a%21/x.zip!/".toList = .ok w ∧
      root shelvesHost u = .ok (r, path) ∧ root shelvesHost v = .ok (s, path) ∧
      root shelvesHost w = .ok (t, path') ∧ r.text = s.text ∧ r.text ≠ t.text := by
  have hu : Url.parse "jar:file:///my%20files/b!!/x".toList =
      .ok ⟨"jar".toList, none, "file:///my%20files/b!!/x".toList, none, none⟩ :=
    eq_ok_of_toOption (by decide +kernel)
  have hv : Url.parse "JAR:FILE://localhost/a%21/../%6dy%20files/./b%21?q!/y#z".toList =
      .ok ⟨"jar".toList, none, "FILE://localhost/a%21/../%6dy%20files/./b%21".toList,
        some "q!/y".toList, some "z".toList⟩ := eq_ok_of_toOption (by decide +kernel)
  have hw : Url.parse "jar:file:///a%21/x.zip!/".toList =
      .ok ⟨"jar".toList, none, "file:///a%21/x.zip!/".toList, none, none⟩ :=
    eq_ok_of_toOption (by decide +kernel)
  have hr :
      root shelvesHost ⟨"jar".toList, none, "file:///my%20files/b!!/x".toList, none, none⟩ =
      .ok (⟨"jar".toList, none, "file:///my%20files/b!!/".toList, none, none⟩,
        Path.ofText "/my files/b!".toList) :=
    eq_ok_of_toOption (by decide +kernel)
  have hs : ∃ s, root shelvesHost
      ⟨"jar".toList, none, "FILE://localhost/a%21/../%6dy%20files/./b%21".toList,
        some "q!/y".toList, some "z".toList⟩ = .ok (s, Path.ofText "/my files/b!".toList) :=
    ⟨⟨"jar".toList, none, "file:///my%20files/b!!/".toList, none, none⟩,
      eq_ok_of_toOption (by decide +kernel)⟩
  have ht : root shelvesHost ⟨"jar".toList, none, "file:///a%21/x.zip!/".toList, none, none⟩ =
      .ok (⟨"jar".toList, none, "file:///a!/x.zip!/".toList, none, none⟩,
        Path.ofText "/a!/x.zip".toList) :=
    eq_ok_of_toOption (by decide +kernel)
  obtain ⟨s, hs⟩ := hs
  refine ⟨_, _, _, _, s, _, _, _, hu, hv, hw, hr, hs, ht, ?_, fun htext => ?_⟩
  · obtain ⟨htext, hsame, hpath, hpath'⟩ := root_eq_iff hu hv hr hs
    exact htext.mpr (hsame.mpr ⟨rfl, hpath.trans hpath'.symm⟩)
  · obtain ⟨hsame, hpaths, hpath, hpath'⟩ := root_eq_iff hu hw hr ht
    have hreal := (hpaths.mp (hsame.mp htext)).2
    rw [hpath, hpath', Option.some_inj] at hreal
    exact absurd hreal (by decide)

end Archive

end ContentMounts
