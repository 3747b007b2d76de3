import Mathlib.Data.List.Induction
import Mathlib.Data.List.Nodup
import ContentMounts.Proofs.Archive.EntryPath
import ContentMounts.Proofs.Archive.Index

/-!
# The tree in an index

An index is built by insertions, and each of them climbs from the path of its entry to a directory
that is known already. `Hangs` says what that leaves behind: every path hangs in the directory above
it, which is known and lists its last segment, and a directory lists nothing else. On the way up one
path is loose, and hangs as soon as the climb has passed it.

An entry stands at a path if it is the first one that was inserted there (`standing?`), and only
where no entry stands a directory is made up (`info?_ofInsertions`). Whatever holds of the paths of
the entries and passes from a path to the one above holds of all that the index knows
(`forall_of_isSome_info?`).
-/

namespace ContentMounts

/-- An entry of an archive as it is inserted into an index. -/
structure Insertion where
  name : Text
  index : Nat
  isDir : Bool
  size : Nat
deriving DecidableEq, Repr

namespace Insertion

/-- The path under which an entry is recorded. -/
def path (e : Insertion) : Text := EntryPath.normalize e.name

/-- What is recorded of an entry. -/
def info (e : Insertion) : EntryInfo := .ofEntry e.index e.isDir e.size

end Insertion

namespace EntryIndex

/-- The index with one more entry. -/
def add (ix : EntryIndex) (e : Insertion) : EntryIndex := ix.insert e.name e.index e.isDir e.size

/-- The index of a sequence of entries. -/
def ofInsertions (es : List Insertion) : EntryIndex := es.foldl add empty

/-- The entry that stands at a path: the first one that was inserted there. None stands at the
root. -/
def standing? (es : List Insertion) (path : Text) : Option Insertion :=
  if path = EntryPath.root then none else es.find? (·.path == path)

variable {ix : EntryIndex} {path dir name : Text}

/-! ## Recording -/

lemma info?_record (ix : EntryIndex) (path other : Text) (info : EntryInfo) :
    (ix.record path info).info? other = if other = path then some info else ix.info? other := by
  unfold info? record
  split
  · next heq => rw [heq, Assoc.lookup_put_self]
  · next hne => rw [Assoc.lookup_put_ne hne]

@[simp] lemma names_record (ix : EntryIndex) (path : Text) (info : EntryInfo) (dir : Text) :
    (ix.record path info).names dir = ix.names dir := rfl

@[simp] lemma info?_addName (ix : EntryIndex) (dir name path : Text) :
    (ix.addName dir name).info? path = ix.info? path := rfl

lemma isSome_info?_record (info : EntryInfo) {other : Text} (h : (ix.info? other).isSome = true) :
    ((ix.record path info).info? other).isSome = true := by
  rw [info?_record]
  split
  · rfl
  · exact h

lemma names_addName (ix : EntryIndex) (dir name other : Text) :
    (ix.addName dir name).names other =
      if other = dir ∧ name ∉ ix.names dir then ix.names dir ++ [name] else ix.names other := by
  unfold addName
  simp only [List.contains_iff_mem]
  rw [names]
  dsimp only
  by_cases hother : other = dir
  · rw [hother, Assoc.lookup_put_self, Option.getD_some]
    by_cases hname : name ∈ ix.names dir
    · rw [if_pos hname, if_neg (by simp [hname])]
    · rw [if_neg hname, if_pos ⟨rfl, hname⟩]
  · rw [Assoc.lookup_put_ne hother, if_neg fun h => hother h.1]
    rfl

lemma mem_names_addName {other child : Text} :
    child ∈ (ix.addName dir name).names other ↔
      child ∈ ix.names other ∨ other = dir ∧ child = name := by
  rw [names_addName]
  split
  · next h =>
    rw [h.1, List.mem_append, List.mem_singleton]
    exact or_congr_right (and_iff_right rfl).symm
  · next h =>
    refine ⟨.inl, ?_⟩
    rintro (hold | ⟨hother, hchild⟩)
    · exact hold
    · rw [hother, hchild]
      by_contra hnew
      exact h ⟨hother, hnew⟩

lemma info?_empty (path : Text) :
    empty.info? path = if path = EntryPath.root then some EntryInfo.directory else none := by
  unfold empty info?
  rw [List.lookup_cons, List.lookup_nil]
  split <;> simp_all

/-! ## What a climb leaves behind -/

/-- Every path that is known hangs in the directory above it, but for the root and for one path that
may be loose. -/
structure Hangs (ix : EntryIndex) (loose : Text) : Prop where
  info?_root : ix.info? EntryPath.root = some EntryInfo.directory
  spelled : ∀ path, (ix.info? path).isSome = true →
    ∃ names, (∀ name ∈ names, EntryPath.IsName name) ∧ path = EntryPath.ofNames names
  hung : ∀ path, (ix.info? path).isSome = true → path ≠ EntryPath.root → path ≠ loose →
    (ix.info? (EntryPath.parent path)).isSome = true ∧
      EntryPath.filename path ∈ ix.names (EntryPath.parent path)
  listed : ∀ dir, ∀ name ∈ ix.names dir, ∃ path, path ≠ EntryPath.root ∧
    (ix.info? path).isSome = true ∧ EntryPath.parent path = dir ∧ EntryPath.filename path = name
  nodup : ∀ dir, (ix.names dir).Nodup

lemma hangs_empty : Hangs empty EntryPath.root where
  info?_root := rfl
  spelled path hpath := by
    have hroot : path = EntryPath.root := by
      by_contra hne
      simp [info?_empty, hne] at hpath
    exact ⟨[], by simp, hroot⟩
  hung path hpath hne := by simp [info?_empty, hne] at hpath
  listed dir name hname := absurd hname List.not_mem_nil
  nodup dir := List.nodup_nil

variable {loose : Text}

/-- A path is recorded and is loose now; the one that was loose hangs in it. -/
lemma Hangs.record (h : Hangs ix loose) (info : EntryInfo) (hne : path ≠ EntryPath.root)
    (hspelled : ∃ names, (∀ name ∈ names, EntryPath.IsName name) ∧ path = EntryPath.ofNames names)
    (hloose : loose = EntryPath.root ∨
      EntryPath.parent loose = path ∧ EntryPath.filename loose ∈ ix.names path) :
    Hangs (ix.record path info) path where
  info?_root := by rw [info?_record, if_neg hne.symm, h.info?_root]
  spelled other hother := by
    rw [info?_record] at hother
    split at hother
    · next heq => exact heq ▸ hspelled
    · exact h.spelled other hother
  hung other hother hroot hpath := by
    rw [info?_record, if_neg hpath] at hother
    by_cases hl : other = loose
    · subst hl
      obtain ⟨habove, hname⟩ := hloose.resolve_left hroot
      refine ⟨?_, ?_⟩
      · rw [habove, info?_record, if_pos rfl]
        rfl
      · rw [habove]
        exact hname
    · obtain ⟨habove, hname⟩ := h.hung other hother hroot hl
      exact ⟨isSome_info?_record info habove, hname⟩
  listed dir name hname := by
    obtain ⟨other, hroot, hother, hdir, hfile⟩ := h.listed dir name hname
    exact ⟨other, hroot, isSome_info?_record info hother, hdir, hfile⟩
  nodup := h.nodup

/-- The last segment of the loose path is listed in the directory above it. -/
lemma Hangs.addName (h : Hangs ix loose) (hne : loose ≠ EntryPath.root)
    (hknown : (ix.info? loose).isSome = true) :
    Hangs (ix.addName (EntryPath.parent loose) (EntryPath.filename loose)) loose where
  info?_root := h.info?_root
  spelled := h.spelled
  hung other hother hroot hl :=
    (h.hung other hother hroot hl).imp_right fun hname => mem_names_addName.mpr (.inl hname)
  listed dir name hname := by
    rcases mem_names_addName.mp hname with hold | ⟨rfl, rfl⟩
    · exact h.listed dir name hold
    · exact ⟨loose, hne, hknown, rfl, rfl⟩
  nodup dir := by
    rw [names_addName]
    split
    · next hnew => exact List.concat_eq_append ▸ List.Nodup.concat hnew.2 (h.nodup _)
    · exact h.nodup dir

/-- No path is loose once the loose one hangs in a directory that is known. -/
lemma Hangs.of_hung (h : Hangs ix loose)
    (hknown : (ix.info? (EntryPath.parent loose)).isSome = true)
    (hname : EntryPath.filename loose ∈ ix.names (EntryPath.parent loose)) :
    Hangs ix EntryPath.root where
  info?_root := h.info?_root
  spelled := h.spelled
  hung other hother hroot _ := by
    by_cases hl : other = loose
    · exact hl ▸ ⟨hknown, hname⟩
    · exact h.hung other hother hroot hl
  listed := h.listed
  nodup := h.nodup

/-- The path above a known path is shorter. -/
lemma Hangs.length_parent_lt (h : Hangs ix loose) (hne : path ≠ EntryPath.root)
    (hknown : (ix.info? path).isSome = true) : (EntryPath.parent path).length < path.length := by
  obtain ⟨names, hnames, rfl⟩ := h.spelled path hknown
  refine EntryPath.length_parent_lt hnames ?_
  rintro rfl
  exact hne rfl

/-- The loose path is listed in the directory above it. -/
lemma filename_mem_names_addName (ix : EntryIndex) (child : Text) :
    EntryPath.filename child ∈
      (ix.addName (EntryPath.parent child) (EntryPath.filename child)).names
        (EntryPath.parent child) :=
  mem_names_addName.mpr (.inr ⟨rfl, rfl⟩)

/-- If the directory above the loose path is made up, it is the loose path now. It is known, and it
is not the root. -/
lemma Hangs.makeUp {child : Text} (h : Hangs ix child) (hne : child ≠ EntryPath.root)
    (hknown : (ix.info? child).isSome = true)
    (hnew : ¬((ix.addName (EntryPath.parent child) (EntryPath.filename child)).info?
      (EntryPath.parent child)).isSome = true) :
    let dir := EntryPath.parent child
    let above := (ix.addName dir (EntryPath.filename child)).record dir EntryInfo.directory
    Hangs above dir ∧ dir ≠ EntryPath.root ∧ (above.info? dir).isSome = true := by
  have hroot : EntryPath.parent child ≠ EntryPath.root := by
    intro hroot
    rw [info?_addName, hroot, h.info?_root] at hnew
    exact hnew rfl
  refine ⟨(h.addName hne hknown).record EntryInfo.directory hroot ?_
    (.inr ⟨rfl, filename_mem_names_addName ix child⟩), hroot, ?_⟩
  · refine ⟨_, fun name hmem => ?_, EntryPath.parent_eq child⟩
    exact EntryPath.isName_of_mem_segments name ((List.dropLast_sublist _).subset hmem)
  · rw [info?_record, if_pos rfl]
    rfl

/-- A climb from the loose path leaves none. Each step leads to a shorter path, so the length of the
path is fuel enough. -/
lemma Hangs.climb {fuel : Nat} {child : Text} (h : Hangs ix child) (hne : child ≠ EntryPath.root)
    (hknown : (ix.info? child).isSome = true) (hfuel : child.length ≤ fuel) :
    Hangs (climb fuel ix child) EntryPath.root := by
  induction fuel generalizing ix child with
  | zero =>
    have hshorter := h.length_parent_lt hne hknown
    omega
  | succ fuel ih =>
    have hshorter := h.length_parent_lt hne hknown
    rw [EntryIndex.climb]
    split
    · next hdir =>
      exact (h.addName hne hknown).of_hung hdir (filename_mem_names_addName ix child)
    · next hnew =>
      obtain ⟨habove, hroot, hdir⟩ := h.makeUp hne hknown hnew
      exact ih habove hroot hdir (by omega)

/-- A climb makes up directories where nothing was known, and leaves the rest as it was. -/
lemma info?_climb (fuel : Nat) (ix : EntryIndex) (child path : Text) :
    (climb fuel ix child).info? path = ix.info? path ∨
      ix.info? path = none ∧ (climb fuel ix child).info? path = some EntryInfo.directory := by
  induction fuel generalizing ix child with
  | zero => exact .inl rfl
  | succ fuel ih =>
    rw [climb]
    split
    · exact .inl rfl
    · next hdir =>
      rw [info?_addName, Bool.not_eq_true, Option.isSome_eq_false_iff, Option.isNone_iff_eq_none]
        at hdir
      have hlater := ih ((ix.addName (EntryPath.parent child) (EntryPath.filename child)).record
        (EntryPath.parent child) EntryInfo.directory) (EntryPath.parent child)
      rw [info?_record, info?_addName] at hlater
      split at hlater
      · next heq =>
        rcases hlater with hmade | ⟨hnone, -⟩
        · exact .inr ⟨heq ▸ hdir, hmade⟩
        · cases hnone
      · exact hlater

/-- Whatever passes from a path to the one above holds of all that a climb records. -/
lemma forall_climb {P : Text → Prop} (habove : ∀ path, P path → P (EntryPath.parent path))
    (fuel : Nat) {child : Text} (hchild : P child)
    (h : ∀ path, (ix.info? path).isSome = true → P path) :
    ∀ path, ((climb fuel ix child).info? path).isSome = true → P path := by
  induction fuel generalizing ix child with
  | zero => exact h
  | succ fuel ih =>
    rw [climb]
    split
    · exact h
    · refine ih (habove child hchild) fun path hpath => ?_
      rw [info?_record] at hpath
      split at hpath
      · next heq => exact heq ▸ habove child hchild
      · exact h path hpath

/-! ## Insertions -/

/-- An insertion leaves the index as it is, if the path is the root or an entry stands there;
otherwise the entry is recorded, and the climb starts at its path. -/
lemma add_eq (ix : EntryIndex) (e : Insertion) :
    ix.add e =
      if e.path = EntryPath.root ∨ ((ix.info? e.path).bind (·.index)).isSome = true then ix
      else climb e.path.length (ix.record e.path e.info) e.path := by
  rw [add, insert, ite_or]
  rfl

/-- An entry that is recorded is known, and its path is the loose one. -/
lemma Hangs.recordEntry (h : Hangs ix EntryPath.root) {e : Insertion}
    (hne : e.path ≠ EntryPath.root) :
    Hangs (ix.record e.path e.info) e.path ∧
      ((ix.record e.path e.info).info? e.path).isSome = true := by
  refine ⟨h.record e.info hne ?_ (.inl rfl), ?_⟩
  · exact ⟨_, EntryPath.isName_of_mem_segments, EntryPath.normalize_eq_ofNames e.name⟩
  · rw [info?_record, if_pos rfl]
    rfl

lemma Hangs.add (h : Hangs ix EntryPath.root) (e : Insertion) :
    Hangs (ix.add e) EntryPath.root := by
  rw [add_eq]
  split
  · exact h
  · next hnew =>
    rw [not_or] at hnew
    obtain ⟨hloose, hknown⟩ := h.recordEntry hnew.1
    exact hloose.climb hnew.1 hknown (Nat.le_refl _)

/-- A path at which the entry is not recorded is known as it was, or as a directory that was made
up. -/
lemma info?_add_of_kept (ix : EntryIndex) (path : Text) {e : Insertion}
    (h : e.path = EntryPath.root ∨ ((ix.info? e.path).bind (·.index)).isSome = true ∨
      path ≠ e.path) :
    (ix.add e).info? path = ix.info? path ∨
      ix.info? path = none ∧ (ix.add e).info? path = some EntryInfo.directory := by
  rw [add_eq]
  split
  · exact .inl rfl
  · next hnew =>
    have hne : path ≠ e.path := by tauto
    have hrecord := info?_record ix e.path path e.info
    rw [if_neg hne] at hrecord
    rw [← hrecord]
    exact info?_climb _ _ _ _

/-- An entry is recorded where none stands. -/
lemma info?_add_self {e : Insertion} (hne : e.path ≠ EntryPath.root)
    (hnew : (ix.info? e.path).bind (·.index) = none) :
    (ix.add e).info? e.path = some e.info := by
  have hrecord := info?_record ix e.path e.path e.info
  rw [if_pos rfl] at hrecord
  rw [add_eq, if_neg (by simp [hne, hnew])]
  rw [← hrecord]
  refine (info?_climb _ _ _ _).resolve_right fun hmade => ?_
  rw [hrecord] at hmade
  cases hmade.1

lemma ofInsertions_concat (es : List Insertion) (e : Insertion) :
    ofInsertions (es ++ [e]) = (ofInsertions es).add e := by
  rw [ofInsertions, List.foldl_append]
  rfl

/-- After any insertions every path that is known hangs in the directory above it. -/
theorem hangs_ofInsertions (es : List Insertion) : Hangs (ofInsertions es) EntryPath.root := by
  induction es using List.reverseRecOn with
  | nil => exact hangs_empty
  | append_singleton es e ih => exact ofInsertions_concat es e ▸ ih.add e

lemma standing?_root (es : List Insertion) : standing? es EntryPath.root = none := if_pos rfl

lemma standing?_concat (hne : path ≠ EntryPath.root) (es : List Insertion) (e : Insertion) :
    standing? (es ++ [e]) path =
      (standing? es path).or (if e.path = path then some e else none) := by
  rw [standing?, standing?, if_neg hne, if_neg hne, List.find?_append]
  simp

/-- The first entry that is inserted at a path is what the index knows of it. Where no entry stands,
the index knows nothing or a directory that was made up. -/
theorem info?_ofInsertions (es : List Insertion) (path : Text) :
    match standing? es path with
    | some e => (ofInsertions es).info? path = some e.info
    | none => (ofInsertions es).info? path = none ∨
        (ofInsertions es).info? path = some EntryInfo.directory := by
  by_cases hroot : path = EntryPath.root
  · rw [hroot, standing?_root]
    exact .inr (hangs_ofInsertions es).info?_root
  · induction es using List.reverseRecOn with
    | nil =>
      rw [standing?, if_neg hroot]
      exact .inl ((info?_empty path).trans (if_neg hroot))
    | append_singleton es e ih =>
      rw [standing?_concat hroot, ofInsertions_concat]
      cases hstands : standing? es path with
      | some first =>
        rw [hstands] at ih
        dsimp only at ih
        have hkept := info?_add_of_kept (ofInsertions es) path (e := e) (by
          by_cases heq : path = e.path
          · refine .inr (.inl ?_)
            rw [← heq, ih]
            rfl
          · exact .inr (.inr heq))
        rw [ih] at hkept
        rcases hkept with hsame | ⟨hnone, -⟩
        · exact hsame
        · cases hnone
      | none =>
        rw [hstands] at ih
        dsimp only at ih
        by_cases heq : e.path = path
        · rw [if_pos heq]
          subst heq
          refine info?_add_self hroot ?_
          rcases ih with hnone | hmade
          · rw [hnone]
            rfl
          · rw [hmade]
            rfl
        · rw [if_neg heq]
          rcases info?_add_of_kept (ofInsertions es) path (.inr (.inr (Ne.symm heq))) with
            hsame | ⟨-, hmade⟩
          · rw [hsame]
            exact ih
          · exact .inr hmade

/-- An entry that is inserted below the root makes its path known. -/
lemma isSome_info?_of_mem {es : List Insertion} {e : Insertion} (he : e ∈ es) :
    ((ofInsertions es).info? e.path).isSome = true := by
  by_cases hroot : e.path = EntryPath.root
  · rw [hroot, (hangs_ofInsertions es).info?_root]
    rfl
  · have hknown := info?_ofInsertions es e.path
    have hstands : (standing? es e.path).isSome = true := by
      rw [standing?, if_neg hroot, List.find?_isSome]
      exact ⟨e, he, beq_self_eq_true _⟩
    obtain ⟨first, hfirst⟩ := Option.isSome_iff_exists.mp hstands
    rw [hfirst] at hknown
    rw [hknown]
    rfl

/-- Whatever holds of the root and of the paths of the entries, and passes from a path to the one
above, holds of all that is known. -/
lemma forall_of_isSome_info? {P : Text → Prop} {es : List Insertion} (hroot : P EntryPath.root)
    (habove : ∀ path, P path → P (EntryPath.parent path)) (hes : ∀ e ∈ es, P e.path) :
    ∀ path, ((ofInsertions es).info? path).isSome = true → P path := by
  induction es using List.reverseRecOn with
  | nil =>
    intro path hpath
    by_contra hnot
    have hne : path ≠ EntryPath.root := fun heq => hnot (heq ▸ hroot)
    simp [ofInsertions, info?_empty, hne] at hpath
  | append_singleton es e ih =>
    rw [List.forall_mem_append] at hes
    have hold := ih hes.1
    rw [ofInsertions_concat, add_eq]
    split
    · exact hold
    · have he : P e.path := hes.2 e List.mem_cons_self
      refine forall_climb habove _ he fun path hpath => ?_
      rw [info?_record] at hpath
      split at hpath
      · next heq => exact heq ▸ he
      · exact hold path hpath

end EntryIndex

namespace Archive

/-- The entries of an archive in the order in which they are inserted. -/
def insertions (entries : List StoredEntry) : List Insertion :=
  entries.zipIdx.map fun (e, i) => ⟨e.name, i, e.isDir, e.size⟩

/-- The index of an archive is built by insertions. -/
theorem indexOf_eq (entries : List StoredEntry) :
    indexOf entries = EntryIndex.ofInsertions (insertions entries) := by
  rw [EntryIndex.ofInsertions, insertions, List.foldl_map]
  rfl

end Archive

end ContentMounts
