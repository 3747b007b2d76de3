import ContentMounts.Host.Walk
import ContentMounts.Proofs.Path.Segments

/-!
# Successful walks

`Walks` describes the walks that lead somewhere, one constructor for each kind of step; it says the
same as `walk` (`walk_eq_ok_iff`). What is true of all walks is then an induction over their steps:
a walk does not depend on the number of links that are left, on the respelling of the places on the
way, or on whether it has to end in a directory (`Walks.weaken`); it ends at a place with a proper
spelling (`Walks.isProper`); and a walk that meets no link ends where folding the dots by spelling
leads to (`Walks.names_eq_fold`).
-/

namespace ContentMounts

namespace Host

/-- There is a directory at a place. -/
def IsDirAt (root : Node) (place : List Name) : Prop :=
  ∃ n, root.find? place = some n ∧ n.isDir = true

/-- A name leads from the directory at a place to a node. -/
structure Entry (root : Node) (manner : Manner) (place : List Name) (s : Name) (c : Node) :
    Prop where
  ne_dot : s ≠ Name.dot
  ne_dotDot : s ≠ Name.dotDot
  child : ∃ n, root.find? place = some n ∧ n.isDir = true ∧ n.child? s = some c
  isShort : s.length ≤ nameLimit
  notTooLong : manner.isTooLong place s = false

/-- The place from which the target of a link at a place is followed. -/
def linkStart (place : List Name) (target : Path) : List Name :=
  if target.isAbsolute then [] else place

/-- The walks that lead somewhere: over given segments from a place, with a number of links that may
be followed, perhaps to a directory. -/
inductive Walks (root : Node) (manner : Manner) :
    Nat → List Name → List Name → Bool → Located → Prop
  /-- The walk ends where it is. -/
  | here {links : Nat} {place : List Name} {n : Node} {mustBeDir : Bool} :
      root.find? place = some n → (mustBeDir = true → n.isDir = true) →
      Walks root manner links place [] mustBeDir ⟨place, n⟩
  /-- A `.` stays in its directory. -/
  | dot {links : Nat} {place rest : List Name} {mustBeDir : Bool} {l : Located} :
      IsDirAt root place → Walks root manner links place rest mustBeDir l →
      Walks root manner links place (Name.dot :: rest) mustBeDir l
  /-- A `..` leads to the directory above. -/
  | up {links : Nat} {place rest : List Name} {mustBeDir : Bool} {l : Located} :
      IsDirAt root place → Walks root manner links place.dropLast rest mustBeDir l →
      Walks root manner links place (Name.dotDot :: rest) mustBeDir l
  /-- A name leads to something that is not a link. -/
  | name {links : Nat} {place rest : List Name} {s : Name} {c : Node} {mustBeDir : Bool}
      {l : Located} :
      Entry root manner place s c → c.isLink = false →
      Walks root manner links (place ++ [s]) rest mustBeDir l →
      Walks root manner links place (s :: rest) mustBeDir l
  /-- A name leads to a link, which is followed. -/
  | follow {links : Nat} {place rest : List Name} {s : Name} {target : Path} {mustBeDir : Bool}
      {l : Located} :
      Entry root manner place s (.link target) →
      (rest.isEmpty && !mustBeDir && !manner.followsLast) = false → target.bytes.isEmpty = false →
      Walks root manner links (linkStart place target) (target.segments ++ rest)
        (mustBeDir || (rest.isEmpty && target.endsInSlash)) l →
      Walks root manner (links + 1) place (s :: rest) mustBeDir l
  /-- The last name leads to a link, which is not followed. -/
  | stop {links : Nat} {place : List Name} {s : Name} {target : Path} :
      Entry root manner place s (.link target) → manner.followsLast = false →
      Walks root manner links place [s] false ⟨place ++ [s], .link target⟩

section

variable {root : Node} {manner : Manner}

lemma exists_target_of_isLink {n : Node} (h : n.isLink = true) : ∃ target, n = .link target := by
  cases n with
  | link target => exact ⟨target, rfl⟩
  | file id => cases h
  | dir modified es => cases h

/-- Names of dots are never spelled too long. -/
lemma isTooLong_of_dots {place : List Name} {s : Name} (h : s = Name.dot ∨ s = Name.dotDot) :
    manner.isTooLong place s = false := by
  rcases h with rfl | rfl <;> simp [Manner.isTooLong]

lemma descend_dot {follow : Follow} {place rest : List Name} {mustBeDir : Bool}
    (h : IsDirAt root place) :
    descend root manner follow place (Name.dot :: rest) mustBeDir =
      descend root manner follow place rest mustBeDir := by
  obtain ⟨n, hn, hdir⟩ := h
  have hlong : manner.isTooLong place Name.dot = false := isTooLong_of_dots (.inl rfl)
  rw [descend, hn]
  dsimp only
  rw [hlong, if_neg Bool.false_ne_true, hdir, if_neg (by simp), if_pos rfl]

lemma descend_dotDot {follow : Follow} {place rest : List Name} {mustBeDir : Bool}
    (h : IsDirAt root place) :
    descend root manner follow place (Name.dotDot :: rest) mustBeDir =
      descend root manner follow place.dropLast rest mustBeDir := by
  obtain ⟨n, hn, hdir⟩ := h
  have hlong : manner.isTooLong place Name.dotDot = false := isTooLong_of_dots (.inr rfl)
  have hne : Name.dotDot ≠ Name.dot := by decide
  rw [descend, hn]
  dsimp only
  rw [hlong, if_neg Bool.false_ne_true, hdir, if_neg (by simp), if_neg hne, if_pos rfl]

/-- A name leads on from its node. -/
lemma descend_of_entry {follow : Follow} (hfresh : manner.fresh = none) {place rest : List Name}
    {s : Name} {c : Node} {mustBeDir : Bool} (h : Entry root manner place s c)
    {step : Except IoError Located}
    (hname : c.isLink = false → descend root manner follow (place ++ [s]) rest mustBeDir = step)
    (hlink : ∀ target, c = .link target →
      (if rest.isEmpty && !mustBeDir && !manner.followsLast then .ok ⟨place ++ [s], .link target⟩
      else follow place target rest mustBeDir) = step) :
    descend root manner follow place (s :: rest) mustBeDir = step := by
  obtain ⟨n, hn, hdir, hc⟩ := h.child
  rw [descend, hn]
  dsimp only
  rw [h.notTooLong, if_neg Bool.false_ne_true, hdir, if_neg (by simp), if_neg h.ne_dot,
    if_neg h.ne_dotDot, hfresh, if_neg (by simp), if_neg (Nat.not_lt.mpr h.isShort), hc]
  cases c with
  | link target => exact hlink target rfl
  | file id => exact hname rfl
  | dir modified es => exact hname rfl

lemma descend_of_name {follow : Follow} (hfresh : manner.fresh = none) {place rest : List Name}
    {s : Name} {c : Node} {mustBeDir : Bool} (h : Entry root manner place s c)
    (hnot : c.isLink = false) :
    descend root manner follow place (s :: rest) mustBeDir =
      descend root manner follow (place ++ [s]) rest mustBeDir := by
  refine descend_of_entry hfresh h (fun _ => rfl) fun target hlink => ?_
  rw [hlink] at hnot
  cases hnot

lemma descend_of_link {follow : Follow} (hfresh : manner.fresh = none) {place rest : List Name}
    {s : Name} {target : Path} {mustBeDir : Bool} (h : Entry root manner place s (.link target)) :
    descend root manner follow place (s :: rest) mustBeDir =
      if rest.isEmpty && !mustBeDir && !manner.followsLast then .ok ⟨place ++ [s], .link target⟩
      else follow place target rest mustBeDir := by
  refine descend_of_entry hfresh h (by rintro ⟨⟩) ?_
  rintro target ⟨⟩
  rfl

/-- A walk that goes on is in a directory. -/
lemma isDirAt_of_descend {follow : Follow} {place rest : List Name} {s : Name} {mustBeDir : Bool}
    {l : Located} (h : descend root manner follow place (s :: rest) mustBeDir = .ok l) :
    IsDirAt root place ∧ manner.isTooLong place s = false := by
  rw [descend] at h
  split at h
  · cases h
  · next n hn =>
    split at h
    · cases h
    · next hlong =>
      split at h
      · cases h
      · next hdir => exact ⟨⟨n, hn, by simpa using hdir⟩, Bool.eq_false_iff.mpr hlong⟩

/-- A walk that passes a name finds it in the directory. -/
lemma exists_entry_of_descend {follow : Follow} (hfresh : manner.fresh = none)
    {place rest : List Name} {s : Name} {mustBeDir : Bool} {l : Located} (hdot : s ≠ Name.dot)
    (hdots : s ≠ Name.dotDot)
    (h : descend root manner follow place (s :: rest) mustBeDir = .ok l) :
    ∃ c, Entry root manner place s c := by
  obtain ⟨⟨n, hn, hdir⟩, hlong⟩ := isDirAt_of_descend h
  rw [descend, hn] at h
  dsimp only at h
  rw [hlong, if_neg Bool.false_ne_true, hdir, if_neg (by simp), if_neg hdot, if_neg hdots, hfresh,
    if_neg (by simp)] at h
  split at h
  · cases h
  · next hlen =>
    cases hc : n.child? s with
    | none =>
      rw [hc] at h
      cases h
    | some c => exact ⟨c, hdot, hdots, ⟨n, hn, hdir, hc⟩, Nat.le_of_not_lt hlen, hlong⟩

/-- The walk up to the first link that is followed, if what follows the link is a walk, too. -/
lemma walks_of_descend {follow : Follow} (hfresh : manner.fresh = none) {links : Nat}
    (hfollow : ∀ {place target rest mustBeDir l s}, Entry root manner place s (.link target) →
      (rest.isEmpty && !mustBeDir && !manner.followsLast) = false →
      follow place target rest mustBeDir = .ok l →
      Walks root manner links place (s :: rest) mustBeDir l)
    {segments place : List Name} {mustBeDir : Bool} {l : Located}
    (h : descend root manner follow place segments mustBeDir = .ok l) :
    Walks root manner links place segments mustBeDir l := by
  induction segments generalizing place mustBeDir with
  | nil =>
    rw [descend] at h
    split at h
    · cases h
    · next n hn =>
      split at h
      · cases h
      · next hdir =>
        cases h
        refine .here hn fun hmust => ?_
        simpa [hmust] using hdir
  | cons s rest ih =>
    have hat := (isDirAt_of_descend h).1
    by_cases hdot : s = Name.dot
    · subst hdot
      rw [descend_dot hat] at h
      exact .dot hat (ih h)
    · by_cases hdots : s = Name.dotDot
      · subst hdots
        rw [descend_dotDot hat] at h
        exact .up hat (ih h)
      · obtain ⟨c, hentry⟩ := exists_entry_of_descend hfresh hdot hdots h
        cases hlink : c.isLink with
        | false =>
          rw [descend_of_name hfresh hentry hlink] at h
          exact .name hentry hlink (ih h)
        | true =>
          obtain ⟨target, rfl⟩ := exists_target_of_isLink hlink
          rw [descend_of_link hfresh hentry] at h
          split at h
          · next hlast =>
            cases h
            simp only [Bool.and_eq_true, Bool.not_eq_true', List.isEmpty_iff] at hlast
            obtain ⟨⟨rfl, rfl⟩, hnot⟩ := hlast
            exact .stop hentry hnot
          · next hlast => exact hfollow hentry (Bool.eq_false_iff.mpr hlast) h

/-- However many links may still be followed, up to the next one a walk is the same. -/
lemma exists_walk_eq_descend (root : Node) (manner : Manner) (links : Nat) :
    ∃ follow : Follow, ∀ place segments mustBeDir,
      walk root manner links place segments mustBeDir =
        descend root manner follow place segments mustBeDir := by
  cases links with
  | zero => exact ⟨_, fun _ _ _ => rfl⟩
  | succ links => exact ⟨_, fun _ _ _ => rfl⟩

/-- A walk is successful exactly if it is one of the walks that lead somewhere. -/
theorem walk_eq_ok_iff (hfresh : manner.fresh = none) {links : Nat} {place segments : List Name}
    {mustBeDir : Bool} {l : Located} :
    walk root manner links place segments mustBeDir = .ok l ↔
      Walks root manner links place segments mustBeDir l := by
  constructor
  · intro h
    induction links generalizing place segments mustBeDir l with
    | zero =>
      refine walks_of_descend hfresh (fun _ _ hloop => ?_) h
      cases hloop
    | succ links ih =>
      refine walks_of_descend hfresh (fun hentry hlast hrest => ?_) h
      split at hrest
      · cases hrest
      · next hempty => exact .follow hentry hlast (Bool.eq_false_iff.mpr hempty) (ih hrest)
  · intro h
    have hdescend := exists_walk_eq_descend root manner
    induction h with
    | @here links place n mustBeDir hn hdir =>
      obtain ⟨follow, hwalk⟩ := hdescend links
      rw [hwalk, descend, hn]
      dsimp only
      rw [if_neg]
      cases mustBeDir <;> simp_all
    | @dot links place rest mustBeDir l hdir _ ih =>
      obtain ⟨follow, hwalk⟩ := hdescend links
      rw [hwalk] at ih ⊢
      rw [descend_dot hdir, ih]
    | @up links place rest mustBeDir l hdir _ ih =>
      obtain ⟨follow, hwalk⟩ := hdescend links
      rw [hwalk] at ih ⊢
      rw [descend_dotDot hdir, ih]
    | @name links place rest s c mustBeDir l hentry hnot _ ih =>
      obtain ⟨follow, hwalk⟩ := hdescend links
      rw [hwalk] at ih ⊢
      rw [descend_of_name hfresh hentry hnot, ih]
    | @follow links place rest s target mustBeDir l hentry hlast hempty _ ih =>
      rw [walk, descend_of_link hfresh hentry, hlast, if_neg Bool.false_ne_true, hempty,
        if_neg Bool.false_ne_true]
      exact ih
    | @stop links place s target hentry hnot =>
      obtain ⟨follow, hwalk⟩ := hdescend links
      rw [hwalk, descend_of_link hfresh hentry, hnot]
      exact if_pos rfl

/-! ## Where walks lead -/

/-- There is only one node that a name leads to. -/
lemma Entry.unique {manner' : Manner} {place : List Name} {s : Name} {c c' : Node}
    (h : Entry root manner place s c) (h' : Entry root manner' place s c') : c = c' := by
  obtain ⟨n, hn, -, hc⟩ := h.child
  obtain ⟨n', hn', -, hc'⟩ := h'.child
  obtain rfl : n = n' := Option.some.inj (hn.symm.trans hn')
  exact Option.some.inj (hc.symm.trans hc')

/-- A node below a directory is found at its place. -/
lemma Entry.find? {place : List Name} {s : Name} {c : Node} (h : Entry root manner place s c) :
    root.find? (place ++ [s]) = some c := by
  obtain ⟨n, hn, -, hc⟩ := h.child
  rw [Node.find?_append, hn, Option.bind_some, Node.find?, hc, Option.bind_some, Node.find?_nil]

/-- A walk ends at its node. -/
lemma Walks.find? {links : Nat} {place segments : List Name} {mustBeDir : Bool} {l : Located}
    (h : Walks root manner links place segments mustBeDir l) :
    root.find? l.names = some l.node := by
  induction h with
  | here hn hdir => exact hn
  | dot hdir _ ih => exact ih
  | up hdir _ ih => exact ih
  | name hentry hnot _ ih => exact ih
  | follow hentry hlast hempty _ ih => exact ih
  | stop hentry hnot => exact hentry.find?

/-- A name leads to the same node if places may be longer. -/
lemma Entry.weaken {manner' : Manner} (hrespells : manner'.respells = true → manner.respells = true)
    {place : List Name} {s : Name} {c : Node} (h : Entry root manner place s c) :
    Entry root manner' place s c := by
  refine ⟨h.ne_dot, h.ne_dotDot, h.child, h.isShort, ?_⟩
  have hlong := h.notTooLong
  unfold Manner.isTooLong at hlong ⊢
  cases hr : manner'.respells with
  | false => rfl
  | true =>
    rw [hrespells hr] at hlong
    exact hlong

/-- A walk that follows links to the end leads to the same place if more links may be followed, if
the places on the way may be longer, and if it need not end in a directory. -/
lemma Walks.weaken {manner' : Manner} (hlast : manner.followsLast = true)
    (hlast' : manner'.followsLast = true)
    (hrespells : manner'.respells = true → manner.respells = true) {links links' : Nat}
    {place segments : List Name} {mustBeDir mustBeDir' : Bool} {l : Located}
    (h : Walks root manner links place segments mustBeDir l) (hlinks : links ≤ links')
    (hdir : mustBeDir' = true → mustBeDir = true) :
    Walks root manner' links' place segments mustBeDir' l := by
  induction h generalizing links' mustBeDir' with
  | here hn hmust => exact .here hn fun h => hmust (hdir h)
  | dot hat _ ih => exact .dot hat (ih hlinks hdir)
  | up hat _ ih => exact .up hat (ih hlinks hdir)
  | name he hnot _ ih => exact .name (he.weaken hrespells) hnot (ih hlinks hdir)
  | @follow links place rest s target mustBeDir l he _ hempty _ ih =>
    obtain ⟨links', rfl⟩ := Nat.exists_eq_add_of_le' (Nat.le_trans (Nat.le_add_left 1 links) hlinks)
    refine .follow (he.weaken hrespells) (by simp [hlast']) hempty
      (ih (Nat.le_of_succ_le_succ hlinks) fun h => ?_)
    rcases Bool.or_eq_true .. |>.mp h with hb | hends
    · simp [hdir hb]
    · simp [hends]
  | stop he hnot =>
    rw [hlast] at hnot
    cases hnot

/-- Two walks over the same segments lead to the same place. -/
lemma Walks.unique (hfresh : manner.fresh = none) {links : Nat} {place segments : List Name}
    {mustBeDir : Bool} {l l' : Located} (h : Walks root manner links place segments mustBeDir l)
    (h' : Walks root manner links place segments mustBeDir l') : l = l' :=
  Except.ok.inj (((walk_eq_ok_iff hfresh).mpr h).symm.trans ((walk_eq_ok_iff hfresh).mpr h'))

/-- A walk over segments ends at a place with a proper spelling. -/
lemma Walks.isProper {links : Nat} {place segments : List Name} {mustBeDir : Bool} {l : Located}
    (h : Walks root manner links place segments mustBeDir l)
    (hplace : ∀ s ∈ place, Name.IsProper s) (hsegments : ∀ s ∈ segments, Name.IsSegment s) :
    ∀ s ∈ l.names, Name.IsProper s := by
  have hpush : ∀ {place : List Name} {s : Name} {c : Node}, Entry root manner place s c →
      (∀ t ∈ place, Name.IsProper t) → Name.IsSegment s →
      ∀ t ∈ place ++ [s], Name.IsProper t := by
    intro place s c he hplace hs t ht
    rcases List.mem_append.mp ht with hold | hnew
    · exact hplace t hold
    · rw [List.mem_singleton.mp hnew]
      exact ⟨hs, he.ne_dot, he.ne_dotDot⟩
  induction h with
  | here hn hdir => exact hplace
  | dot hat _ ih => exact ih hplace fun s hs => hsegments s (List.mem_cons_of_mem _ hs)
  | up hat _ ih =>
    exact ih (fun s hs => hplace s (List.dropLast_subset _ hs))
      fun s hs => hsegments s (List.mem_cons_of_mem _ hs)
  | @name links place rest s c mustBeDir l he hnot _ ih =>
    exact ih (hpush he hplace (hsegments s List.mem_cons_self))
      fun t ht => hsegments t (List.mem_cons_of_mem s ht)
  | @follow links place rest s target mustBeDir l he hlast hempty _ ih =>
    refine ih ?_ ?_
    · unfold linkStart
      split
      · simp
      · exact hplace
    · intro t ht
      rcases List.mem_append.mp ht with htarget | hrest
      · exact Path.isSegment_of_mem_segments t htarget
      · exact hsegments t (List.mem_cons_of_mem s hrest)
  | @stop links place s target he hnot =>
    exact hpush he hplace (hsegments s List.mem_cons_self)

/-- A walk that meets no link ends where folding the dots leads to. -/
lemma Walks.names_eq_fold (hlast : manner.followsLast = true) {place segments : List Name}
    {mustBeDir : Bool} {l : Located} (h : Walks root manner 0 place segments mustBeDir l) :
    segments.foldl (Path.Folded.push true) ⟨0, place.reverse⟩ = ⟨0, l.names.reverse⟩ := by
  generalize hlinks : 0 = links at h
  induction h with
  | here hn hdir => rw [← hlinks]; rfl
  | dot hat _ ih => exact ih hlinks
  | @up links place rest mustBeDir l hat _ ih =>
    have hpush : Path.Folded.push true ⟨0, place.reverse⟩ Name.dotDot =
        ⟨0, place.dropLast.reverse⟩ := by
      rw [Path.Folded.push, if_neg (by decide), if_pos rfl, ← List.tail_reverse]
      cases place.reverse <;> rfl
    rw [← hlinks] at ih ⊢
    rw [List.foldl_cons, hpush]
    exact ih rfl
  | @name links place rest s c mustBeDir l he hnot _ ih =>
    have hpush : Path.Folded.push true ⟨0, place.reverse⟩ s = ⟨0, (place ++ [s]).reverse⟩ := by
      rw [Path.Folded.push, if_neg he.ne_dot, if_neg he.ne_dotDot, List.reverse_append]
      rfl
    rw [← hlinks] at ih ⊢
    rw [List.foldl_cons, hpush]
    exact ih rfl
  | follow he _ hempty _ ih => cases hlinks
  | stop he hnot =>
    rw [hlast] at hnot
    cases hnot

/-! ## The steps of a walk -/

lemma Walks.of_dot {links : Nat} {place rest : List Name} {mustBeDir : Bool} {l : Located}
    (h : Walks root manner links place (Name.dot :: rest) mustBeDir l) :
    Walks root manner links place rest mustBeDir l := by
  cases h with
  | dot _ hrest => exact hrest
  | name he _ _ => exact absurd rfl he.ne_dot
  | follow he _ _ _ => exact absurd rfl he.ne_dot
  | stop he _ => exact absurd rfl he.ne_dot

lemma Walks.of_dotDot {links : Nat} {place rest : List Name} {mustBeDir : Bool} {l : Located}
    (h : Walks root manner links place (Name.dotDot :: rest) mustBeDir l) :
    Walks root manner links place.dropLast rest mustBeDir l := by
  cases h with
  | up _ hrest => exact hrest
  | name he _ _ => exact absurd rfl he.ne_dotDot
  | follow he _ _ _ => exact absurd rfl he.ne_dotDot
  | stop he _ => exact absurd rfl he.ne_dotDot

/-- A link is followed. -/
lemma Walks.of_link {manner' : Manner} (hlast : manner.followsLast = true) {links : Nat}
    {place rest : List Name} {s : Name} {target : Path} {mustBeDir : Bool} {l : Located}
    (h : Walks root manner links place (s :: rest) mustBeDir l)
    (he : Entry root manner' place s (.link target)) :
    ∃ left, links = left + 1 ∧ target.bytes.isEmpty = false ∧
      Walks root manner left (linkStart place target) (target.segments ++ rest)
        (mustBeDir || (rest.isEmpty && target.endsInSlash)) l := by
  cases h with
  | dot _ _ => exact absurd rfl he.ne_dot
  | up _ _ => exact absurd rfl he.ne_dotDot
  | name he' hnot _ =>
    rw [← he.unique he'] at hnot
    cases hnot
  | follow he' _ hempty hrest =>
    obtain rfl := Node.link.inj (he.unique he')
    exact ⟨_, rfl, hempty, hrest⟩
  | stop he' hnot =>
    rw [hlast] at hnot
    cases hnot

/-- The last name before a link that is not followed leads to the link. -/
lemma Walks.entry_of_link {links : Nat} {place names : List Name} {s : Name} {target : Path}
    (hs : Name.IsProper s)
    (h : Walks root { followsLast := false } links place [s] false ⟨names, .link target⟩) :
    Entry root { followsLast := false } place s (.link target) := by
  cases h with
  | dot _ _ => exact absurd rfl hs.ne_dot
  | up _ _ => exact absurd rfl hs.ne_dotDot
  | name he hnot hrest =>
    cases hrest with
    | here hn _ =>
      rw [he.find?] at hn
      rw [Option.some.inj hn] at hnot
      cases hnot
  | follow _ hlast _ _ => cases hlast
  | stop he _ => exact he

/-! ## Links at the end -/

/-- There is no link at a place. -/
def NoLinkAt (root : Node) (place : List Name) : Prop :=
  ∀ target, root.find? place ≠ some (.link target)

lemma NoLinkAt.of_find? {place : List Name} {n : Node} (h : root.find? place = some n)
    (hnot : n.isLink = false) : NoLinkAt root place := by
  intro target hlink
  rw [h] at hlink
  cases hlink
  cases hnot

lemma NoLinkAt.of_isDirAt {place : List Name} (h : IsDirAt root place) : NoLinkAt root place := by
  obtain ⟨n, hn, hdir⟩ := h
  refine .of_find? hn ?_
  cases n with
  | link target => cases hdir
  | file id => rfl
  | dir modified es => rfl

/-- Above a directory there is no link. -/
lemma NoLinkAt.dropLast {place : List Name} (h : IsDirAt root place) :
    NoLinkAt root place.dropLast := by
  rcases List.eq_nil_or_concat' place with rfl | ⟨init, s, rfl⟩
  · exact .of_isDirAt h
  · obtain ⟨n, hn, -⟩ := h
    rw [Node.find?_append] at hn
    obtain ⟨above, habove, hchild⟩ := Option.bind_eq_some_iff.mp hn
    rw [List.dropLast_concat]
    refine .of_find? habove ?_
    cases above with
    | link target => cases hchild
    | file id => rfl
    | dir modified es => rfl

/-- The target of a link is followed from where there is no link. -/
lemma Entry.noLinkAt_linkStart (hroot : root.isLink = false) {place : List Name} {s : Name}
    {c : Node} (h : Entry root manner place s c) (target : Path) :
    NoLinkAt root (linkStart place target) := by
  unfold linkStart
  split
  · exact .of_find? (Node.find?_nil root) hroot
  · obtain ⟨n, hn, hdir, -⟩ := h.child
    exact .of_isDirAt ⟨n, hn, hdir⟩

/-- On the way to a node that is not a link there is no link. -/
lemma exists_find?_of_append {xs ys : List Name} {n : Node} (hn : root.find? (xs ++ ys) = some n)
    (hnot : n.isLink = false) : ∃ m, root.find? xs = some m ∧ m.isLink = false := by
  rw [Node.find?_append] at hn
  obtain ⟨m, hm, hrest⟩ := Option.bind_eq_some_iff.mp hn
  refine ⟨m, hm, ?_⟩
  cases m with
  | link target =>
    cases ys with
    | nil =>
      cases hrest
      exact hnot
    | cons t ys => cases hrest
  | file id => rfl
  | dir modified es => rfl

/-- A walk over names that lead to no link passes these names. -/
lemma Walks.names_eq_of_find? {links : Nat}
    {place segments : List Name} {mustBeDir : Bool} {l : Located} {n : Node}
    (hsegments : ∀ s ∈ segments, Name.IsProper s)
    (h : Walks root manner links place segments mustBeDir l)
    (hn : root.find? (place ++ segments) = some n) (hnot : n.isLink = false) :
    l.names = place ++ segments := by
  induction h with
  | here _ _ => simp
  | dot _ _ _ => exact absurd rfl (hsegments _ List.mem_cons_self).ne_dot
  | up _ _ _ => exact absurd rfl (hsegments _ List.mem_cons_self).ne_dotDot
  | @name links place rest s c mustBeDir l _ _ _ ih =>
    rw [List.append_cons] at hn ⊢
    exact ih (fun t ht => hsegments t (List.mem_cons_of_mem s ht)) hn
  | @follow links place rest s target mustBeDir l he _ _ _ _ =>
    rw [List.append_cons] at hn
    obtain ⟨m, hm, hlink⟩ := exists_find?_of_append hn hnot
    rw [he.find?] at hm
    cases hm
    cases hlink
  | stop _ _ => rfl

/-- A walk that follows links to the end does not end at one. -/
lemma Walks.isLink_eq_false (hroot : root.isLink = false) (hlast : manner.followsLast = true)
    {links : Nat} {place segments : List Name} {mustBeDir : Bool} {l : Located}
    (h : Walks root manner links place segments mustBeDir l) (hplace : NoLinkAt root place) :
    l.node.isLink = false := by
  induction h with
  | @here links place n mustBeDir hn _ =>
    cases n with
    | link target => exact absurd hn (hplace target)
    | file id => rfl
    | dir modified es => rfl
  | dot _ _ ih => exact ih hplace
  | up hat _ ih => exact ih (.dropLast hat)
  | name he hnot _ ih => exact ih (.of_find? he.find? hnot)
  | follow he _ _ _ ih => exact ih (he.noLinkAt_linkStart hroot _)
  | stop _ hstops =>
    rw [hlast] at hstops
    cases hstops

end

end Host

end ContentMounts
