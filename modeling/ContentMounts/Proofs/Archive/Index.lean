import Mathlib.Tactic.Common
import ContentMounts.Archive.Content

/-!
# What an index records

An index is built by inserting the entries of an archive one by one. Whatever it knows of a path,
it knows from one insertion: the path is the normal form of an inserted name, recorded with what was
said of that name, or the directory at the path was made up on the way to another
(`EntryIndex.forall_mem_insert`). The index of an opened archive therefore leads to entries of the
archive only, and to entries of the name that was asked for (`Archive.entry_of_get?`).
-/

namespace ContentMounts

/-- What an index records of an inserted entry. -/
def EntryInfo.ofEntry (index : Nat) (isDir : Bool) (size : Nat) : EntryInfo :=
  ⟨some index, isDir, if isDir then 0 else size⟩

namespace EntryIndex

variable {ix : EntryIndex} {P : Text × EntryInfo → Prop}

lemma forall_mem_record {path : Text} {info : EntryInfo} (hnew : P (path, info))
    (h : ∀ pair ∈ ix.entries, P pair) : ∀ pair ∈ (ix.record path info).entries, P pair := by
  intro pair hpair
  rcases Assoc.eq_or_mem_of_mem_put hpair with rfl | hold
  · exact hnew
  · exact h pair hold

/-- On the way up nothing is recorded but directories. -/
lemma forall_mem_climb (hdir : ∀ path, P (path, EntryInfo.directory)) (fuel : Nat) (child : Text)
    (h : ∀ pair ∈ ix.entries, P pair) : ∀ pair ∈ (climb fuel ix child).entries, P pair := by
  induction fuel generalizing ix child with
  | zero => exact h
  | succ fuel ih =>
    unfold climb
    dsimp only
    split
    · exact h
    · exact ih _ (forall_mem_record (hdir _) h)

/-- An insertion records the entry and directories, or nothing. -/
lemma forall_mem_insert {name : Text} {index size : Nat} {isDir : Bool}
    (hdir : ∀ path, P (path, EntryInfo.directory))
    (hnew : P (EntryPath.normalize name, EntryInfo.ofEntry index isDir size))
    (h : ∀ pair ∈ ix.entries, P pair) :
    ∀ pair ∈ (ix.insert name index isDir size).entries, P pair := by
  unfold insert
  dsimp only
  split
  · exact h
  · split
    · exact h
    · exact forall_mem_climb hdir _ _ (forall_mem_record hnew h)

end EntryIndex

namespace Archive

variable {P : Text × EntryInfo → Prop} {entries : List StoredEntry}

/-- The index of a list of entries records these and directories. -/
lemma forall_mem_indexOf (hdir : ∀ path, P (path, EntryInfo.directory))
    (hentry : ∀ i e, entries[i]? = some e →
      P (EntryPath.normalize e.name, EntryInfo.ofEntry i e.isDir e.size)) :
    ∀ pair ∈ (indexOf entries).entries, P pair := by
  have hfold : ∀ (numbered : List (StoredEntry × Nat)) (ix : EntryIndex),
      (∀ p ∈ numbered, entries[p.2]? = some p.1) → (∀ pair ∈ ix.entries, P pair) →
      ∀ pair ∈ (numbered.foldl
        (fun ix p => ix.insert p.1.name p.2 p.1.isDir p.1.size) ix).entries, P pair := by
    intro numbered
    induction numbered with
    | nil => exact fun ix _ h => h
    | cons p rest ih =>
      intro ix hnumbered h
      exact ih _ (fun q hq => hnumbered q (List.mem_cons_of_mem p hq))
        (EntryIndex.forall_mem_insert hdir (hentry _ _ (hnumbered p List.mem_cons_self)) h)
  refine hfold entries.zipIdx EntryIndex.empty (fun p hp => ?_) fun pair hpair => ?_
  · exact List.mem_zipIdx_iff_getElem?.mp hp
  · rw [List.mem_singleton.mp hpair]
    exact hdir _

/-- Where the index of an archive does not lead to a directory it leads to an entry of the archive
whose name has the path that was asked for. -/
theorem entry_of_get? {a : Archive} (ha : a.index = indexOf a.entries) {path : Text}
    {info : EntryInfo} (h : a.index.get? path = some info) (hdir : info.isDir = false) :
    ∃ i e, info.index = some i ∧ a.entries[i]? = some e ∧
      EntryPath.normalize e.name = EntryPath.normalize path ∧ e.isDir = false := by
  have hall : ∀ pair ∈ a.index.entries, pair.2 = EntryInfo.directory ∨
      ∃ i e, pair.2 = EntryInfo.ofEntry i e.isDir e.size ∧ a.entries[i]? = some e ∧
        EntryPath.normalize e.name = pair.1 := by
    rw [ha]
    exact forall_mem_indexOf (fun _ => .inl rfl) fun i e he => .inr ⟨i, e, rfl, he, rfl⟩
  rcases hall _ (Assoc.mem_of_lookup h) with hmade | ⟨i, e, hinfo, he, hname⟩
  · obtain rfl : info = EntryInfo.directory := hmade
    cases hdir
  · obtain rfl : info = EntryInfo.ofEntry i e.isDir e.size := hinfo
    exact ⟨i, e, rfl, he, hname, hdir⟩

end Archive

end ContentMounts
