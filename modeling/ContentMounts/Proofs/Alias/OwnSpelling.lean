import ContentMounts.Proofs.Alias.Unflagged

/-!
# Paths spelled as their own address

The address of a resolved path has single separators, and one at its end if the path leads to a
directory. The first check for aliases compares a literal path with that spelling and with nothing
else. A literal path that has it (`Platform.eq_ownUriPath_iff`) therefore passes the check on every
platform, in whatever way its address was escaped, and the checks behind the first one do not ask
whether an address or a path was given. So the address is resolved as its path is
(`Platform.resolvePath_eq_of_resolveUri`).
-/

namespace ContentMounts

namespace Path

/-- The path with a separator put at its end. -/
def withSlash (p : Path) : Path := ⟨p.bytes ++ [slash]⟩

/-- The path without the separator at its end, if there is one. -/
def withoutSlash (p : Path) : Path := if p.endsInSlash then ⟨p.bytes.dropLast⟩ else p

@[simp] lemma endsInSlash_withSlash (p : Path) : p.withSlash.endsInSlash = true := by
  simp [endsInSlash, withSlash]

@[simp] lemma withoutSlash_withSlash (p : Path) : p.withSlash.withoutSlash = p := by
  rw [withoutSlash, endsInSlash_withSlash, if_pos rfl, withSlash, List.dropLast_concat]

lemma withoutSlash_of_not {p : Path} (h : p.endsInSlash = false) : p.withoutSlash = p := by
  rw [withoutSlash, h, if_neg Bool.false_ne_true]

lemma withSlash_ne (p : Path) : p.withSlash ≠ p := fun heq =>
  absurd (congrArg (·.bytes.length) heq) (by simp [withSlash])

end Path

namespace Platform

variable {plat : Platform}

/-- Whether a path has a separator at its end just where it is the root or leads to a directory
without it. -/
def MarksDirectory (plat : Platform) (p : Path) : Prop :=
  p.endsInSlash = true ↔ p.bytes = [Path.slash] ∨ plat.isDir p.withoutSlash = true

/-! ## The first check -/

section

variable {names : List Name} (h : ∀ s ∈ names, Name.IsSegment s)

include h

/-- A collapsed path leads to something whose address has the path, or the path and a separator. -/
lemma ownUriPath_ofSegments (plat : Platform) :
    plat.ownUriPath (Path.ofSegments true names) = Path.ofSegments true names ∨
      names ≠ [] ∧
        plat.ownUriPath (Path.ofSegments true names) = (Path.ofSegments true names).withSlash := by
  unfold ownUriPath
  split
  · next hends =>
    refine .inr ⟨?_, rfl⟩
    rintro rfl
    cases hends
  · exact .inl rfl

/-- The address has the path alone if that is the root or does not lead to a directory. -/
lemma ofSegments_eq_ownUriPath_iff :
    Path.ofSegments true names = plat.ownUriPath (Path.ofSegments true names) ↔
      plat.MarksDirectory (Path.ofSegments true names) := by
  unfold MarksDirectory
  rcases eq_or_ne names [] with rfl | hne
  · exact iff_of_true rfl (iff_of_true rfl (.inl rfl))
  · have hends := Path.endsInSlash_ofSegments h hne true
    have hroot : (Path.ofSegments true names).bytes ≠ [Path.slash] := by
      intro hroot
      rw [Path.endsInSlash, hroot] at hends
      cases hends
    rw [Path.withoutSlash_of_not hends, ownUriPath, hends]
    cases plat.isDir (Path.ofSegments true names) with
    | false => simp [hroot]
    | true =>
      have hlonger : Path.ofSegments true names ≠
          ⟨(Path.ofSegments true names).bytes ++ [Path.slash]⟩ := (Path.withSlash_ne _).symm
      simp [hlonger]

/-- It has the path and a separator if that is not the root and leads to a directory. -/
lemma withSlash_eq_ownUriPath_iff (hne : names ≠ []) :
    (Path.ofSegments true names).withSlash = plat.ownUriPath (Path.ofSegments true names) ↔
      plat.MarksDirectory (Path.ofSegments true names).withSlash := by
  have hroot : (Path.ofSegments true names).withSlash.bytes ≠ [Path.slash] := by
    simp [Path.withSlash, Path.ofSegments]
  unfold MarksDirectory
  rw [Path.endsInSlash_withSlash, Path.withoutSlash_withSlash, ownUriPath,
    Path.endsInSlash_ofSegments h hne true]
  cases plat.isDir (Path.ofSegments true names) with
  | false => simpa [hroot] using Path.withSlash_ne (Path.ofSegments true names)
  | true => exact iff_of_true rfl (iff_of_true rfl (.inr rfl))

end

/-- A path at the root is spelled as its own address exactly if its separators are single and it has
one at its end just where it leads to a directory. -/
theorem eq_ownUriPath_iff {raw : Path} (habs : raw.isAbsolute = true) :
    raw = plat.ownUriPath raw.collapse ↔
      ¬[Path.slash, Path.slash] <:+: raw.bytes ∧ plat.MarksDirectory raw := by
  have hforms := Path.eq_collapse_or habs
  have hnames : ∀ s ∈ raw.segments, Name.IsSegment s := Path.isSegment_of_mem_segments
  rw [Path.collapse_of_isAbsolute habs] at hforms ⊢
  generalize raw.segments = names at hforms hnames ⊢
  constructor
  · intro hown
    rcases ownUriPath_ofSegments hnames plat with hplain | ⟨hne, hslash⟩
    · obtain rfl := hown.trans hplain
      exact ⟨Path.not_infix_ofSegments hnames, (ofSegments_eq_ownUriPath_iff hnames).mp hown⟩
    · obtain rfl := hown.trans hslash
      exact ⟨Path.not_infix_ofSegments_append hnames hne,
        (withSlash_eq_ownUriPath_iff hnames hne).mp hown⟩
  · rintro ⟨hsingle, hmarks⟩
    rcases hforms hsingle with rfl | ⟨hne, rfl⟩
    · exact (ofSegments_eq_ownUriPath_iff hnames).mpr hmarks
    · exact (withSlash_eq_ownUriPath_iff hnames hne).mpr hmarks

/-! ## The other checks -/

/-- Behind the first check it does not matter whether an address or a path was given. -/
lemma detect_eq_of_encodingAlias? {raw absolute : Path}
    (h : plat.encodingAlias? raw absolute = none) :
    plat.detect true raw absolute = plat.detect false raw absolute := by
  rw [detect, detect, if_pos rfl, if_neg Bool.false_ne_true, h]

/-- Let an address spell a path with single separators, and with one at its end just where it leads
to a directory. Then the address is resolved to the path and to the alias that the spelled path is
resolved to. -/
theorem resolvePath_eq_of_resolveUri {input : Text} {raw : Path} {r : Resolved}
    (hr : plat.resolveUri input = .ok r) (hraw : Uri.literalPath? input = some raw)
    (hsingle : ¬[Path.slash, Path.slash] <:+: raw.bytes) (hmarks : plat.MarksDirectory raw)
    (workingDir : Path) : plat.resolvePath workingDir raw = r := by
  obtain ⟨spelled, hspelled, rfl⟩ := exists_literalPath?_of_resolveUri hr
  obtain rfl : spelled = raw := Option.some.inj (hspelled.symm.trans hraw)
  have habs := Uri.isAbsolute_of_literalPath? hraw
  have hsilent : plat.encodingAlias? spelled spelled.collapse = none :=
    if_pos ((eq_ownUriPath_iff habs).mpr ⟨hsingle, hmarks⟩)
  rw [resolvePath, anchor, if_pos habs, detect_eq_of_encodingAlias? hsilent]

/-- A directory, and a link to it that is spelled with escapes, behind the name of this host and in
front of a query, are resolved as their paths are: the one without an alias, the other to its
target. -/
theorem resolvePath_shelf :
    (∃ r, Host.shelfHost.platform.resolveUri "file:///my%20shelf/".toList = .ok r ∧
      r.aliasPath = none ∧ Host.shelfHost.platform.resolvePath (Host.pathOf [])
        (Path.ofText "/my shelf/".toList) = r) ∧
      ∃ r, Host.shelfHost.platform.resolveUri "FILE://localhost/%66ront/?x".toList = .ok r ∧
        r.aliasPath = some (Path.ofText "/my shelf".toList) ∧
        Host.shelfHost.platform.resolvePath (Host.pathOf [])
          (Path.ofText "/front/".toList) = r := by
  have hshelf : Host.shelfHost.platform.resolveUri "file:///my%20shelf/".toList =
      .ok ⟨Path.ofText "/my shelf".toList, none⟩ := eq_ok_of_toOption (by decide +kernel)
  have hfront : Host.shelfHost.platform.resolveUri "FILE://localhost/%66ront/?x".toList =
      .ok ⟨Path.ofText "/front".toList, some (Path.ofText "/my shelf".toList)⟩ :=
    eq_ok_of_toOption (by decide +kernel)
  refine ⟨⟨_, hshelf, rfl, resolvePath_eq_of_resolveUri hshelf (by decide +kernel)
    (by decide +kernel) ?_ _⟩, ⟨_, hfront, rfl, resolvePath_eq_of_resolveUri hfront
    (by decide +kernel) (by decide +kernel) ?_ _⟩⟩
  · exact iff_of_true (by decide +kernel) (.inr (by decide +kernel))
  · exact iff_of_true (by decide +kernel) (.inr (by decide +kernel))

end Platform

end ContentMounts
