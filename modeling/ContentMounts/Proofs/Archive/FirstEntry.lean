import ContentMounts.Proofs.Archive.Tree

/-!
# The first entry of a name

However entries, directories among them, are spelled and in whatever order they are inserted, a name
finds the first entry that was inserted with its normal form (`get?_of_mem`). Directories that were
made up on the way to other entries make no difference. In an archive that entry is the first one in
the order of the archive whose name has the path that is asked for (`Archive.get?_indexOf`).
-/

namespace ContentMounts

namespace EntryIndex

/-- The entry that stands at a path below the root is the one that no other at the path comes
before. -/
lemma exists_standing?_of_mem {es : List Insertion} {e : Insertion} (he : e ∈ es)
    (hne : e.path ≠ EntryPath.root) :
    ∃ before first after, es = before ++ first :: after ∧ first.path = e.path ∧
      (∀ other ∈ before, other.path ≠ e.path) ∧ standing? es e.path = some first := by
  have hfound : (es.find? (·.path == e.path)).isSome = true :=
    List.find?_isSome.mpr ⟨e, he, beq_self_eq_true _⟩
  obtain ⟨first, hfirst⟩ := Option.isSome_iff_exists.mp hfound
  obtain ⟨hpath, before, after, hsplit, hbefore⟩ := List.find?_eq_some_iff_append.mp hfirst
  refine ⟨before, first, after, hsplit, eq_of_beq hpath, fun other hother heq => ?_, ?_⟩
  · have hnot := hbefore other hother
    rw [heq, beq_self_eq_true] at hnot
    cases hnot
  · rw [standing?, if_neg hne, hfirst]

/-- The name of an entry finds the first entry with the same normal form, unless that is the root:
its number, its kind, and its size, which counts for nothing if it is a directory. -/
theorem get?_of_mem {es : List Insertion} {e : Insertion} (he : e ∈ es)
    (hne : e.path ≠ EntryPath.root) :
    ∃ before first after, es = before ++ first :: after ∧ first.path = e.path ∧
      (∀ other ∈ before, other.path ≠ e.path) ∧
      (ofInsertions es).get? e.name =
        some ⟨some first.index, first.isDir, if first.isDir then 0 else first.size⟩ := by
  obtain ⟨before, first, after, hsplit, hpath, hbefore, hstands⟩ := exists_standing?_of_mem he hne
  have hinfo := info?_ofInsertions es e.path
  rw [hstands] at hinfo
  exact ⟨before, first, after, hsplit, hpath, hbefore, hinfo⟩

/-- An archive with a page that stands in a directory before the directory does, and with two files
that claim the path of the directory afterwards. -/
def rivalInsertions : List Insertion :=
  [⟨"docs/guide/page".toList, 0, false, 3⟩, ⟨"./docs//guide/".toList, 1, true, 9⟩,
    ⟨"docs/x/../guide".toList, 2, false, 7⟩, ⟨" /docs/guide".toList, 3, false, 5⟩]

/-- All three spellings find the directory, by the name of one of the files for instance. -/
theorem get?_of_rivals :
    (ofInsertions rivalInsertions).get? "docs/x/../guide".toList = some ⟨some 1, true, 0⟩ := by
  have hmem : (⟨"docs/x/../guide".toList, 2, false, 7⟩ : Insertion) ∈ rivalInsertions := by decide
  have hdir : rivalInsertions.find? (·.path == "/docs/guide".toList) =
      some ⟨"./docs//guide/".toList, 1, true, 9⟩ := by decide
  obtain ⟨before, first, after, hsplit, hpath, hbefore, hget⟩ := get?_of_mem hmem (by decide)
  have hkey : Insertion.path ⟨"docs/x/../guide".toList, 2, false, 7⟩ = "/docs/guide".toList := by
    decide
  rw [hkey] at hpath hbefore
  have hfirst : rivalInsertions.find? (·.path == "/docs/guide".toList) = some first := by
    refine List.find?_eq_some_iff_append.mpr ⟨beq_iff_eq.mpr hpath, before, after, hsplit, ?_⟩
    intro other hother
    rw [Bool.not_eq_true', beq_eq_false_iff_ne]
    exact hbefore other hother
  obtain rfl := Option.some.inj (hfirst.symm.trans hdir)
  exact hget

end EntryIndex

namespace Archive

/-- The first entry of an archive whose name has a path. There is none at the root. -/
def first? (entries : List StoredEntry) (path : Text) : Option StoredEntry :=
  if path = EntryPath.root then none
  else entries.find? fun e => EntryPath.normalize e.name == path

/-- What stands at a path is said of the first entry there. -/
lemma standing?_insertions (entries : List StoredEntry) (path : Text) :
    match first? entries path with
    | some e => ∃ i, entries[i]? = some e ∧
        EntryIndex.standing? (insertions entries) path = some ⟨e.name, i, e.isDir, e.size⟩
    | none => EntryIndex.standing? (insertions entries) path = none := by
  unfold first? EntryIndex.standing?
  by_cases hroot : path = EntryPath.root
  · rw [if_pos hroot, if_pos hroot]
  · have hcounted : (entries.zipIdx.find? fun pair => EntryPath.normalize pair.1.name == path).map
        Prod.fst = entries.find? fun e => EntryPath.normalize e.name == path := by
      conv_rhs => rw [← List.zipIdx_map_fst 0 entries, List.find?_map]
      rfl
    rw [if_neg hroot, if_neg hroot, insertions, List.find?_map, ← hcounted]
    cases hfound : entries.zipIdx.find? fun pair => EntryPath.normalize pair.1.name == path with
    | some pair =>
      obtain ⟨e, i⟩ := pair
      exact ⟨i, List.mem_zipIdx_iff_getElem?.mp (List.mem_of_find?_eq_some hfound),
        congrArg (Option.map _) hfound⟩
    | none => exact congrArg (Option.map _) hfound

/-- A path in any spelling leads to the first entry there. Where there is none, it leads nowhere or
to a directory that was made up. -/
theorem get?_indexOf (entries : List StoredEntry) (path : Text) :
    match first? entries (EntryPath.normalize path) with
    | some e => ∃ i, entries[i]? = some e ∧
        (indexOf entries).get? path = some (EntryInfo.ofEntry i e.isDir e.size)
    | none => (indexOf entries).get? path = none ∨
        (indexOf entries).get? path = some EntryInfo.directory := by
  have hstanding := standing?_insertions entries (EntryPath.normalize path)
  have hknown := EntryIndex.info?_ofInsertions (insertions entries) (EntryPath.normalize path)
  rw [indexOf_eq, EntryIndex.get?]
  split at hstanding
  · next e _ =>
    obtain ⟨i, hi, hstands⟩ := hstanding
    rw [hstands] at hknown
    exact ⟨i, hi, hknown⟩
  · rw [hstanding] at hknown
    exact hknown

end Archive

end ContentMounts
