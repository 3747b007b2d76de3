import Mathlib.Data.List.Induction
import ContentMounts.Proofs.Host.Walk

/-!
# Real paths

The real path of a path is the spelling of the place where the path leads. It is found by
respelling every place on the way, so there may be none although the path leads somewhere: that is
so exactly if one of these places is spelled too long (`canonicalize_eq_or_of_locate`). A place that
was reached is reached by its own names as well (`Walks.direct`), so a real path is its own real
path (`canonicalize_of_canonicalize`).
-/

namespace ContentMounts

namespace Host

variable {h : Host}

/-- A path at the root leads to the place that another path spells. -/
def LeadsTo (h : Host) (p c : Path) : Prop :=
  ∃ l, Walks h.root {} linkLimit [] p.segments false l ∧ c = pathOf l.names

lemma LeadsTo.unique {p c d : Path} (hc : h.LeadsTo p c) (hd : h.LeadsTo p d) : c = d := by
  obtain ⟨l, hl, rfl⟩ := hc
  obtain ⟨l', hl', rfl⟩ := hd
  rw [hl.unique rfl hl']

/-- Where a path leads depends on its segments alone. -/
lemma LeadsTo.congr {p q c : Path} (hc : h.LeadsTo p c) (hsegments : p.segments = q.segments) :
    h.LeadsTo q c := by
  rw [LeadsTo, hsegments] at hc
  exact hc

lemma leadsTo_of_walks {p : Path} {links : Nat} {mustBeDir : Bool} {l : Located}
    (hl : Walks h.root {} links [] p.segments mustBeDir l) (hlinks : links ≤ linkLimit) :
    h.LeadsTo p (pathOf l.names) :=
  ⟨l, hl.weaken rfl rfl id hlinks (by simp), rfl⟩

/-- What is located at the root is reached by a walk. -/
lemma walks_of_locate {manner : Manner} (hfresh : manner.fresh = none) {p : Path}
    (habs : p.isAbsolute = true) {l : Located} (hl : h.locate manner p = .ok l) :
    Walks h.root manner linkLimit [] p.segments p.endsInSlash l := by
  unfold locate at hl
  cases hguard : guardPath p with
  | error e =>
    rw [hguard] at hl
    cases hl
  | ok _ =>
    rw [hguard, startOf, if_pos habs] at hl
    exact (walk_eq_ok_iff hfresh).mp hl

/-- The real path of a path at the root is that of the place where respelling leads. -/
lemma exists_respelled_of_canonicalize {p c : Path} (habs : p.isAbsolute = true)
    (hc : h.canonicalize p = .ok c) :
    ∃ l, Walks h.root { respells := true } linkLimit [] p.segments p.endsInSlash l ∧
      c = pathOf l.names ∧ ∀ s ∈ l.names, Name.IsProper s := by
  unfold canonicalize at hc
  cases hguard : guardSpelling p with
  | error e =>
    rw [hguard] at hc
    cases hc
  | ok _ =>
    rw [hguard, startOf, if_pos habs] at hc
    cases hwalk : walk h.root { respells := true } linkLimit [] p.segments p.endsInSlash with
    | error e =>
      simp only [bind, Except.bind, hwalk] at hc
      cases hc
    | ok l =>
      simp only [bind, Except.bind, hwalk, pure, Except.pure, Except.ok.injEq] at hc
      have hwalks := (walk_eq_ok_iff rfl).mp hwalk
      exact ⟨l, hwalks, hc.symm, hwalks.isProper (by simp) Path.isSegment_of_mem_segments⟩

/-- The real path of a path at the root is that of the place where it leads. -/
lemma exists_walks_of_canonicalize {p c : Path} (habs : p.isAbsolute = true)
    (hc : h.canonicalize p = .ok c) :
    ∃ l, Walks h.root {} linkLimit [] p.segments p.endsInSlash l ∧ c = pathOf l.names ∧
      ∀ s ∈ l.names, Name.IsProper s := by
  obtain ⟨l, hl, hcl, hproper⟩ := exists_respelled_of_canonicalize habs hc
  exact ⟨l, hl.weaken rfl rfl (by simp) (Nat.le_refl linkLimit) id, hcl, hproper⟩

lemma leadsTo_of_canonicalize {p c : Path} (habs : p.isAbsolute = true)
    (hc : h.canonicalize p = .ok c) : h.LeadsTo p c := by
  obtain ⟨l, hl, rfl, -⟩ := exists_walks_of_canonicalize habs hc
  exact leadsTo_of_walks hl (Nat.le_refl linkLimit)

/-- A real path is at the root and has no dots, and what it spells is not a link. -/
lemma exists_names_of_canonicalize {p c : Path} (habs : p.isAbsolute = true)
    (hc : h.canonicalize p = .ok c) :
    ∃ names n, c = pathOf names ∧ (∀ s ∈ names, Name.IsProper s) ∧
      h.root.find? names = some n ∧ n.isLink = false := by
  obtain ⟨l, hl, hcl, hproper⟩ := exists_walks_of_canonicalize habs hc
  exact ⟨l.names, l.node, hcl, hproper, hl.find?,
    hl.isLink_eq_false rfl rfl (.of_find? (Node.find?_nil h.root) rfl)⟩

/-- What a path leads to is found at its real path. -/
lemma exists_find?_of_canonicalize {p c : Path} (habs : p.isAbsolute = true)
    (hc : h.canonicalize p = .ok c) {n : Node} (hn : h.stat p = .ok n) :
    ∃ names, c = pathOf names ∧ h.root.find? names = some n := by
  obtain ⟨l, hl, rfl⟩ := exists_of_map_eq_ok hn
  have hwalks := walks_of_locate rfl habs hl
  exact ⟨l.names, (leadsTo_of_canonicalize habs hc).unique
    (leadsTo_of_walks hwalks (Nat.le_refl linkLimit)), hwalks.find?⟩

/-- A link that is not followed is reached by a walk. -/
lemma exists_walks_of_lstat {p : Path} (habs : p.isAbsolute = true) {n : Node}
    (hn : h.lstat p = .ok n) :
    ∃ names, Walks h.root { followsLast := false } linkLimit [] p.segments p.endsInSlash
      ⟨names, n⟩ := by
  obtain ⟨l, hl, rfl⟩ := exists_of_map_eq_ok hn
  exact ⟨l.names, walks_of_locate rfl habs hl⟩

/-! ## Respelling the places on the way -/

section Respelling

variable {root : Node}

/-- A walk that respells the places on the way is refused at an entry that is spelled too long. -/
lemma descend_of_tooLong {follow : Follow} {manner : Manner} {place rest : List Name} {s : Name}
    {c : Node} {mustBeDir : Bool} (h : Entry root {} place s c)
    (hlong : manner.isTooLong place s = true) :
    descend root manner follow place (s :: rest) mustBeDir = .error .invalidFilename := by
  obtain ⟨n, hn, -⟩ := h.child
  rw [descend, hn]
  dsimp only
  rw [if_pos hlong]

/-- A name that leads somewhere leads there with respelling, too, unless it is spelled too long. -/
lemma Entry.respelled {place : List Name} {s : Name} {c : Node} (h : Entry root {} place s c) :
    ({ respells := true } : Manner).isTooLong place s = true ∨
      Entry root { respells := true } place s c := by
  cases hlong : ({ respells := true } : Manner).isTooLong place s with
  | true => exact .inl rfl
  | false => exact .inr ⟨h.ne_dot, h.ne_dotDot, h.child, h.isShort, hlong⟩

/-- A walk that leads somewhere leads there with respelling, too, unless a place on the way is
spelled too long. -/
lemma Walks.respelled {links : Nat} {place segments : List Name} {mustBeDir : Bool} {l : Located}
    (h : Walks root {} links place segments mustBeDir l) :
    walk root { respells := true } links place segments mustBeDir = .ok l ∨
      walk root { respells := true } links place segments mustBeDir = .error .invalidFilename := by
  have hdescend := exists_walk_eq_descend root { respells := true }
  induction h with
  | here hn hdir => exact .inl ((walk_eq_ok_iff rfl).mpr (.here hn hdir))
  | @dot links place rest mustBeDir l hat _ ih =>
    obtain ⟨follow, hwalk⟩ := hdescend links
    rw [hwalk] at ih ⊢
    rw [descend_dot hat]
    exact ih
  | @up links place rest mustBeDir l hat _ ih =>
    obtain ⟨follow, hwalk⟩ := hdescend links
    rw [hwalk] at ih ⊢
    rw [descend_dotDot hat]
    exact ih
  | @name links place rest s c mustBeDir l he hnot _ ih =>
    obtain ⟨follow, hwalk⟩ := hdescend links
    rw [hwalk] at ih ⊢
    rcases he.respelled with hlong | hentry
    · exact .inr (descend_of_tooLong he hlong)
    · rw [descend_of_name rfl hentry hnot]
      exact ih
  | @follow links place rest s target mustBeDir l he hlast hempty _ ih =>
    rcases he.respelled with hlong | hentry
    · exact .inr (descend_of_tooLong he hlong)
    · rw [walk, descend_of_link rfl hentry, hlast, if_neg Bool.false_ne_true, hempty,
        if_neg Bool.false_ne_true]
      exact ih
  | stop _ hnot => cases hnot

end Respelling

/-- The real path of a path at the root that may be followed is what respelling gives. -/
lemma canonicalize_eq_map_walk {p : Path} (habs : p.isAbsolute = true)
    (hspelling : guardSpelling p = .ok ()) :
    h.canonicalize p =
      (walk h.root { respells := true } linkLimit [] p.segments p.endsInSlash).map
        fun l => pathOf l.names := by
  rw [canonicalize, hspelling, startOf, if_pos habs]
  rfl

/-- What leads somewhere has a real path, unless a place on the way is spelled too long. -/
theorem canonicalize_eq_or_of_locate {p : Path} (habs : p.isAbsolute = true) {l : Located}
    (hl : h.locate {} p = .ok l) :
    h.canonicalize p = .ok (pathOf l.names) ∨ h.canonicalize p = .error .invalidFilename := by
  have hwalks := walks_of_locate rfl habs hl
  have hspelling : guardSpelling p = .ok () := by
    unfold locate guardPath at hl
    cases hguard : guardSpelling p with
    | error e =>
      rw [hguard] at hl
      cases hl
    | ok _ => rfl
  rw [canonicalize_eq_map_walk habs hspelling]
  rcases hwalks.respelled with hwalk | hwalk
  · exact .inl (by rw [hwalk]; rfl)
  · exact .inr (by rw [hwalk]; rfl)

/-! ## The real path of a real path -/

section Direct

variable {root : Node} {manner : Manner}

/-- Every name of a place leads on to something that is not a link. -/
def Direct (root : Node) (manner : Manner) (place : List Name) : Prop :=
  ∀ init s, init ++ [s] <+: place → ∃ c, Entry root manner init s c ∧ c.isLink = false

lemma direct_nil : Direct root manner [] := by
  intro init s hbefore
  simp at hbefore

lemma Direct.of_prefix {place init : List Name} (h : Direct root manner place)
    (hbefore : init <+: place) : Direct root manner init :=
  fun above s hs => h above s (hs.trans hbefore)

lemma Direct.concat {place : List Name} {s : Name} {c : Node} (h : Direct root manner place)
    (he : Entry root manner place s c) (hnot : c.isLink = false) :
    Direct root manner (place ++ [s]) := by
  intro init t hbefore
  rcases List.prefix_concat_iff.mp hbefore with heq | hold
  · obtain ⟨rfl, hts⟩ := List.append_inj' heq rfl
    obtain rfl := List.singleton_inj.mp hts
    exact ⟨c, he, hnot⟩
  · exact h init t hold

/-- A walk that follows links to the end leads to a place that is reached over its own names. -/
lemma Walks.direct (hlast : manner.followsLast = true) {links : Nat} {place segments : List Name}
    {mustBeDir : Bool} {l : Located} (h : Walks root manner links place segments mustBeDir l)
    (hplace : Direct root manner place) : Direct root manner l.names := by
  induction h with
  | here _ _ => exact hplace
  | dot _ _ ih => exact ih hplace
  | up _ _ ih => exact ih (hplace.of_prefix (List.dropLast_prefix _))
  | name he hnot _ ih => exact ih (hplace.concat he hnot)
  | follow _ _ _ _ ih =>
    refine ih ?_
    unfold linkStart
    split
    · exact direct_nil
    · exact hplace
  | stop _ hstops =>
    rw [hlast] at hstops
    cases hstops

/-- A walk from a place that is reached over its own names may as well start at the root. -/
lemma Direct.walks {links : Nat} {place rest : List Name} {mustBeDir : Bool} {l : Located}
    (h : Direct root manner place) (hl : Walks root manner links place rest mustBeDir l) :
    Walks root manner links [] (place ++ rest) mustBeDir l := by
  induction place using List.reverseRecOn generalizing rest with
  | nil => exact hl
  | append_singleton init s ih =>
    obtain ⟨c, he, hnot⟩ := h init s (List.prefix_refl _)
    rw [List.append_assoc]
    exact ih (h.of_prefix (List.prefix_append init [s])) (.name he hnot hl)

/-- A walk that has to end in a directory does. -/
lemma Walks.isDir (hlast : manner.followsLast = true) {links : Nat} {place segments : List Name}
    {mustBeDir : Bool} {l : Located} (hl : Walks root manner links place segments mustBeDir l)
    (hdir : mustBeDir = true) : l.node.isDir = true := by
  induction hl with
  | here _ hnode => exact hnode hdir
  | dot _ _ ih => exact ih hdir
  | up _ _ ih => exact ih hdir
  | name _ _ _ ih => exact ih hdir
  | follow _ _ _ _ ih => exact ih (by rw [hdir, Bool.true_or])
  | stop _ hstops =>
    rw [hlast] at hstops
    cases hstops

end Direct

/-- No link holds a zero byte. -/
def HoldsNoZero (h : Host) : Prop :=
  ∀ place target, h.root.find? place = some (.link target) → 0 ∉ target.bytes

/-- A walk over segments without zero bytes leads to a place without them. -/
lemma Walks.zero_notMem (hzero : h.HoldsNoZero) {manner : Manner} {links : Nat}
    {place segments : List Name} {mustBeDir : Bool} {l : Located}
    (hl : Walks h.root manner links place segments mustBeDir l) (hplace : ∀ s ∈ place, 0 ∉ s)
    (hsegments : ∀ s ∈ segments, 0 ∉ s) : ∀ s ∈ l.names, 0 ∉ s := by
  have hpush : ∀ {place : List Name} {s : Name}, (∀ t ∈ place, 0 ∉ t) → 0 ∉ s →
      ∀ t ∈ place ++ [s], 0 ∉ t := by
    intro place s hplace hs t ht
    rcases List.mem_append.mp ht with hold | hnew
    · exact hplace t hold
    · rw [List.mem_singleton.mp hnew]
      exact hs
  induction hl with
  | here _ _ => exact hplace
  | dot _ _ ih => exact ih hplace fun t ht => hsegments t (List.mem_cons_of_mem _ ht)
  | up _ _ ih =>
    exact ih (fun t ht => hplace t (List.dropLast_subset _ ht))
      fun t ht => hsegments t (List.mem_cons_of_mem _ ht)
  | @name links place rest s c mustBeDir l _ _ _ ih =>
    exact ih (hpush hplace (hsegments s List.mem_cons_self))
      fun t ht => hsegments t (List.mem_cons_of_mem s ht)
  | @follow links place rest s target mustBeDir l he _ _ _ ih =>
    refine ih ?_ fun t ht => ?_
    · unfold linkStart
      split
      · simp
      · exact hplace
    · rcases List.mem_append.mp ht with htarget | hrest
      · exact fun hmem => hzero _ _ he.find? (Path.mem_bytes_of_mem_segments htarget hmem)
      · exact hsegments t (List.mem_cons_of_mem s hrest)
  | @stop links place s target _ _ => exact hpush hplace (hsegments s List.mem_cons_self)

/-- A path has the real path of the place where respelling leads. -/
lemma canonicalize_of_walks {p : Path} {links : Nat} {l : Located} (habs : p.isAbsolute = true)
    (hspelling : 0 ∉ p.bytes) (hlinks : links ≤ linkLimit)
    (hl : Walks h.root { respells := true } links [] p.segments p.endsInSlash l) :
    h.canonicalize p = .ok (pathOf l.names) := by
  have hguard : guardSpelling p = .ok () := by
    have hne : p.bytes.isEmpty = false := by
      cases hbytes : p.bytes with
      | nil =>
        rw [Path.isAbsolute, hbytes] at habs
        cases habs
      | cons b rest => rfl
    rw [guardSpelling, if_neg (by simpa using hspelling), hne, if_neg Bool.false_ne_true]
  have hwalks := hl.weaken rfl rfl id hlinks id
  rw [canonicalize_eq_map_walk habs hguard, (walk_eq_ok_iff rfl).mpr hwalks]
  rfl

/-- A path whose segments hold no zero byte holds none. -/
lemma zero_notMem_of_segments {p : Path} (hp : ∀ s ∈ p.segments, 0 ∉ s) : 0 ∉ p.bytes := by
  intro hmem
  rcases Path.eq_or_exists_of_mem_bytes hmem with hslash | ⟨s, hs, hin⟩
  · cases hslash
  · exact hp s hs hin

/-- A path that has a real path holds no zero byte. -/
lemma zero_notMem_of_canonicalize {p c : Path} (hc : h.canonicalize p = .ok c) : 0 ∉ p.bytes := by
  intro hmem
  simp only [canonicalize, guardSpelling, List.contains_iff_mem, hmem, if_true, bind,
    Except.bind] at hc
  cases hc

/-- What spells a place that is reached over its own names has the real path of the place. -/
lemma canonicalize_of_direct {p : Path} {l : Located} (habs : p.isAbsolute = true)
    (hspelling : 0 ∉ p.bytes) (hsegments : p.segments = l.names)
    (hdirect : Direct h.root { respells := true } l.names)
    (hfound : h.root.find? l.names = some l.node)
    (hdir : p.endsInSlash = true → l.node.isDir = true) :
    h.canonicalize p = .ok (pathOf l.names) := by
  have hhere : Walks h.root { respells := true } linkLimit l.names [] p.endsInSlash l :=
    .here hfound hdir
  have hself := hdirect.walks hhere
  rw [List.append_nil, ← hsegments] at hself
  exact canonicalize_of_walks habs hspelling (Nat.le_refl linkLimit) hself

/-- A real path spells a place that is reached over its own names. -/
lemma exists_direct_of_canonicalize (hzero : h.HoldsNoZero) {p c : Path}
    (habs : p.isAbsolute = true) (hc : h.canonicalize p = .ok c) :
    ∃ l : Located, c = pathOf l.names ∧ (∀ s ∈ l.names, Name.IsProper s) ∧
      Direct h.root { respells := true } l.names ∧ h.root.find? l.names = some l.node ∧
      0 ∉ c.bytes ∧ (p.endsInSlash = true → l.node.isDir = true) := by
  have hspelling := zero_notMem_of_canonicalize hc
  obtain ⟨l, hl, rfl, hproper⟩ := exists_respelled_of_canonicalize habs hc
  have hnames : ∀ s ∈ l.names, 0 ∉ s := hl.zero_notMem hzero (by simp)
    fun s hs hmem => hspelling (Path.mem_bytes_of_mem_segments hs hmem)
  have hsegments : (pathOf l.names).segments = l.names :=
    Path.segments_ofSegments true fun s hs => (hproper s hs).toIsSegment
  have hfree : 0 ∉ (pathOf l.names).bytes :=
    zero_notMem_of_segments fun s hs => hnames s (hsegments ▸ hs)
  exact ⟨l, rfl, hproper, hl.direct rfl direct_nil, hl.find?, hfree, hl.isDir rfl⟩

/-- A real path is its own real path, and so it is with a separator behind it if it leads to a
directory. -/
theorem canonicalize_of_canonicalize (hzero : h.HoldsNoZero) {p c : Path}
    (habs : p.isAbsolute = true) (hc : h.canonicalize p = .ok c) :
    h.canonicalize c = .ok c ∧
      ((h.root.find? c.segments).any Node.isDir = true →
        h.canonicalize ⟨c.bytes ++ [Path.slash]⟩ = .ok c) := by
  obtain ⟨l, rfl, hproper, hdirect, hfound, hfree, -⟩ :=
    exists_direct_of_canonicalize hzero habs hc
  have hsegments : (pathOf l.names).segments = l.names :=
    Path.segments_ofSegments true fun s hs => (hproper s hs).toIsSegment
  refine ⟨canonicalize_of_direct rfl hfree hsegments hdirect hfound fun hends => ?_,
    fun hdir => canonicalize_of_direct rfl ?_ ?_ hdirect hfound fun _ => ?_⟩
  · rcases eq_or_ne l.names [] with hnil | hne
    · rw [hnil, Node.find?_nil] at hfound
      rw [← Option.some.inj hfound]
      rfl
    · rw [pathOf, Path.endsInSlash_ofSegments (fun s hs => (hproper s hs).toIsSegment) hne] at hends
      cases hends
  · have hslash : (0 : UInt8) ≠ Path.slash := by decide
    simpa [hslash] using hfree
  · rw [Path.segments_append_slash]
    exact (List.append_nil _).trans hsegments
  · rw [hsegments, hfound, Option.any_some] at hdir
    exact hdir

end Host

end ContentMounts
