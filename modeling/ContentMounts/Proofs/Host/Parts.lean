import ContentMounts.Proofs.Host.RealPath

/-!
# Walks in parts

A walk over segments reaches a directory before it goes on with the last of them, so it is made of a
walk to that directory and one from there (`Walks.split`, `Walks.append`). How links at the end are
treated matters only in the second part (`Walks.of_mustBeDir`), and a link that the walk ends in is
followed from the directory that it is in (`Walks.parts_of_link`).

Folding dots by spelling takes a `..` away together with the name in front of it. The walk over the
other segments then leads where the whole walk leads, unless that name leads to a link: the `..`
behind a link leads to the directory above its target (`Walks.fold`).
-/

namespace ContentMounts

namespace Host

section

variable {root : Node} {manner : Manner}

/-- A walk may be allowed more links. -/
lemma Walks.of_le {links links' : Nat} {place segments : List Name} {mustBeDir : Bool}
    {l : Located} (h : Walks root manner links place segments mustBeDir l)
    (hlinks : links ≤ links') : Walks root manner links' place segments mustBeDir l := by
  induction h generalizing links' with
  | here hn hdir => exact .here hn hdir
  | dot hat _ ih => exact .dot hat (ih hlinks)
  | up hat _ ih => exact .up hat (ih hlinks)
  | name he hnot _ ih => exact .name he hnot (ih hlinks)
  | @follow links place rest s target mustBeDir l he hlast hempty _ ih =>
    obtain ⟨links', rfl⟩ := Nat.exists_eq_add_of_le' (Nat.le_trans (Nat.le_add_left 1 links) hlinks)
    exact .follow he hlast hempty (ih (Nat.le_of_succ_le_succ hlinks))
  | stop he hnot => exact .stop he hnot

/-- A walk to a directory follows links in every manner. -/
lemma Walks.of_mustBeDir {manner' : Manner}
    (hrespells : manner'.respells = true → manner.respells = true) {links links' : Nat}
    {place segments : List Name} {l : Located} (h : Walks root manner links place segments true l)
    (hlinks : links ≤ links') : Walks root manner' links' place segments true l := by
  generalize hmust : true = mustBeDir at h
  induction h generalizing links' with
  | here hn hdir => exact .here hn fun _ => hdir hmust.symm
  | dot hat _ ih => exact .dot hat (ih hlinks hmust)
  | up hat _ ih => exact .up hat (ih hlinks hmust)
  | name he hnot _ ih => exact .name (he.weaken hrespells) hnot (ih hlinks hmust)
  | @follow links place rest s target mustBeDir l he _ hempty _ ih =>
    obtain ⟨links', rfl⟩ := Nat.exists_eq_add_of_le' (Nat.le_trans (Nat.le_add_left 1 links) hlinks)
    subst hmust
    exact .follow (he.weaken hrespells) (by simp) hempty
      (ih (Nat.le_of_succ_le_succ hlinks) (Bool.true_or _).symm)
  | stop => cases hmust

/-- Where a walk leads does not depend on whether it has to end in a directory, if it does. -/
lemma Walks.of_isDir (hlast : manner.followsLast = true) {links : Nat} {place segments : List Name}
    {mustBeDir mustBeDir' : Bool} {l : Located}
    (h : Walks root manner links place segments mustBeDir l)
    (hdir : mustBeDir' = true → l.node.isDir = true) :
    Walks root manner links place segments mustBeDir' l := by
  induction h generalizing mustBeDir' with
  | here hn _ => exact .here hn hdir
  | dot hat _ ih => exact .dot hat (ih hdir)
  | up hat _ ih => exact .up hat (ih hdir)
  | name he hnot _ ih => exact .name he hnot (ih hdir)
  | @follow links place rest s target mustBeDir l he _ hempty hrest ih =>
    refine .follow he (by simp [hlast]) hempty (ih fun hmust => ?_)
    rcases Bool.or_eq_true .. |>.mp hmust with hgiven | hends
    · exact hdir hgiven
    · exact hrest.isDir hlast (by rw [hends, Bool.or_true])
  | stop _ hnot =>
    rw [hlast] at hnot
    cases hnot

lemma Entry.isDirAt {place : List Name} {s : Name} {c : Node} (h : Entry root manner place s c) :
    IsDirAt root place := by
  obtain ⟨n, hn, hdir, -⟩ := h.child
  exact ⟨n, hn, hdir⟩

/-- A walk that goes on from where it is, is in a directory there. -/
lemma IsDirAt.walks {place : List Name} (h : IsDirAt root place) (links : Nat) :
    ∃ mid, mid.names = place ∧ Walks root manner links place [] true mid := by
  obtain ⟨n, hn, hdir⟩ := h
  exact ⟨⟨place, n⟩, rfl, .here hn fun _ => hdir⟩

/-- A walk reaches a directory before it goes on. -/
lemma Walks.split {links : Nat} {place xs ys : List Name} {mustBeDir : Bool} {l : Located}
    (h : Walks root manner links place (xs ++ ys) mustBeDir l) (hys : ys ≠ []) :
    ∃ used left mid, used + left = links ∧ Walks root manner used place xs true mid ∧
      Walks root manner left mid.names ys mustBeDir l := by
  -- Where nothing comes before, the directory is the one that the walk is in.
  have hstart : ∀ {links place mustBeDir}, IsDirAt root place →
      Walks root manner links place ys mustBeDir l →
      ∃ used left mid, used + left = links ∧ Walks root manner used place [] true mid ∧
        Walks root manner left mid.names ys mustBeDir l := by
    intro links place mustBeDir hat hwalks
    obtain ⟨mid, rfl, hmid⟩ := hat.walks 0
    exact ⟨0, links, mid, Nat.zero_add links, hmid, hwalks⟩
  generalize hall : xs ++ ys = all at h
  induction h generalizing xs with
  | here _ _ => exact absurd (List.append_eq_nil_iff.mp hall).2 hys
  | dot hat hrest ih =>
    rcases List.append_eq_cons_iff.mp hall with ⟨rfl, rfl⟩ | ⟨xs, rfl, rfl⟩
    · exact hstart hat (.dot hat hrest)
    · obtain ⟨used, left, mid, hlinks, hfirst, hsecond⟩ := ih hstart rfl
      exact ⟨used, left, mid, hlinks, .dot hat hfirst, hsecond⟩
  | up hat hrest ih =>
    rcases List.append_eq_cons_iff.mp hall with ⟨rfl, rfl⟩ | ⟨xs, rfl, rfl⟩
    · exact hstart hat (.up hat hrest)
    · obtain ⟨used, left, mid, hlinks, hfirst, hsecond⟩ := ih hstart rfl
      exact ⟨used, left, mid, hlinks, .up hat hfirst, hsecond⟩
  | name he hnot hrest ih =>
    rcases List.append_eq_cons_iff.mp hall with ⟨rfl, rfl⟩ | ⟨xs, rfl, rfl⟩
    · exact hstart he.isDirAt (.name he hnot hrest)
    · obtain ⟨used, left, mid, hlinks, hfirst, hsecond⟩ := ih hstart rfl
      exact ⟨used, left, mid, hlinks, .name he hnot hfirst, hsecond⟩
  | @follow links place rest s target mustBeDir l he hlast hempty hrest ih =>
    rcases List.append_eq_cons_iff.mp hall with ⟨rfl, rfl⟩ | ⟨xs, rfl, rfl⟩
    · exact hstart he.isDirAt (.follow he hlast hempty hrest)
    · obtain ⟨used, left, mid, hlinks, hfirst, hsecond⟩ := ih hstart (List.append_assoc _ _ _)
      have hmore : (xs ++ ys).isEmpty = false := by simp [hys]
      rw [hmore, Bool.false_and, Bool.or_false] at hsecond
      refine ⟨used + 1, left, mid, by omega, .follow he (by simp) hempty ?_, hsecond⟩
      rw [Bool.true_or]
      exact hfirst
  | @stop links place s target he hnot =>
    rcases List.append_eq_cons_iff.mp hall with ⟨rfl, rfl⟩ | ⟨xs, rfl, hnil⟩
    · exact hstart he.isDirAt (.stop he hnot)
    · exact absurd (List.append_eq_nil_iff.mp hnil.symm).2 hys

/-- A walk to a directory and one that goes on from there make one walk. -/
lemma Walks.append {used left : Nat} {place xs ys : List Name} {mustBeDir : Bool}
    {mid l : Located} (h : Walks root manner used place xs true mid)
    (hl : Walks root manner left mid.names ys mustBeDir l) (hys : ys ≠ []) :
    Walks root manner (used + left) place (xs ++ ys) mustBeDir l := by
  generalize hmust : true = must at h
  induction h with
  | @here links _ _ _ _ _ => exact hl.of_le (Nat.le_add_left left links)
  | dot hat _ ih => exact .dot hat (ih hl hmust)
  | up hat _ ih => exact .up hat (ih hl hmust)
  | name he hnot _ ih => exact .name he hnot (ih hl hmust)
  | @follow links place rest s target must mid he _ hempty _ ih =>
    subst hmust
    have hmore : (rest ++ ys).isEmpty = false := by simp [hys]
    have hrest := ih hl (Bool.true_or _).symm
    rw [List.append_assoc] at hrest
    rw [Nat.add_right_comm, List.cons_append]
    refine .follow he (by rw [hmore]; rfl) hempty ?_
    rw [hmore, Bool.false_and, Bool.or_false]
    exact hrest
  | stop => cases hmust

/-- So do a walk to a directory and one that goes nowhere from there, if links are followed to the
end. -/
lemma Walks.append_of_followsLast (hlast : manner.followsLast = true) {used left : Nat}
    {place xs ys : List Name} {mustBeDir : Bool} {mid l : Located}
    (h : Walks root manner used place xs true mid)
    (hl : Walks root manner left mid.names ys mustBeDir l) :
    Walks root manner (used + left) place (xs ++ ys) mustBeDir l := by
  rcases eq_or_ne ys [] with rfl | hys
  · have hmid : mid = l := by
      have hfound := h.find?
      cases hl with
      | here hn _ => rw [← Option.some.inj (hfound.symm.trans hn)]
    rw [List.append_nil, ← hmid]
    exact (h.of_isDir hlast fun _ => h.isDir hlast rfl).of_le (Nat.le_add_right used left)
  · exact h.append hl hys

/-! ## Links at the end -/

/-- A walk that follows a link at its end goes on with what the link holds, from the directory that
the link is in. -/
lemma Walks.parts_of_link (hlast : manner.followsLast = true) {links links' : Nat}
    {place init names : List Name} {s : Name} {target : Path} {l : Located} (hs : Name.IsProper s)
    (hl : Walks root manner links place (init ++ [s]) false l)
    (hstop : Walks root { followsLast := false } links' place (init ++ [s]) false
      ⟨names, .link target⟩) :
    ∃ used left mid, used + left < links ∧ Walks root manner used place init true mid ∧
      root.find? (mid.names ++ [s]) = some (.link target) ∧ target.bytes.isEmpty = false ∧
      Walks root manner left (linkStart mid.names target) target.segments target.endsInSlash l := by
  obtain ⟨used, rest, mid, hlinks, hfirst, hname⟩ := hl.split (List.cons_ne_nil s [])
  obtain ⟨used', rest', mid', -, hfirst', hname'⟩ := hstop.split (List.cons_ne_nil s [])
  -- Both walks reach the directory that the link is in.
  have hsame : Walks root { followsLast := false } (used + used') place init true mid :=
    hfirst.of_mustBeDir (by simp) (Nat.le_add_right used used')
  rw [(hfirst'.of_le (Nat.le_add_left used' used)).unique rfl hsame] at hname'
  have hentry := hname'.entry_of_link hs
  obtain ⟨left, rfl, hempty, htarget⟩ := hname.of_link hlast hentry
  rw [List.append_nil, Bool.false_or, List.isEmpty_nil, Bool.true_and] at htarget
  exact ⟨used, left, mid, by omega, hfirst, hentry.find?, hempty, htarget⟩

/-! ## Folding dots -/

/-- Names lead from the root to a link. -/
def endsInLink (root : Node) (names : List Name) : Bool :=
  (walk root { followsLast := false } linkLimit [] names false).toOption.any (·.node.isLink)

/-- A walk that meets a link behind some names shows that they lead to one. -/
lemma Walks.endsInLink_concat {used : Nat} {xs : List Name} {mid : Located} {s : Name}
    {target : Path} (h : Walks root manner used [] xs true mid)
    (hused : used ≤ linkLimit) (he : Entry root manner mid.names s (.link target)) :
    endsInLink root (xs ++ [s]) = true := by
  have hstop : Walks root { followsLast := false } 0 mid.names [s] false
      ⟨mid.names ++ [s], .link target⟩ := .stop (he.weaken (by simp)) rfl
  have hwalks : Walks root { followsLast := false } linkLimit [] (xs ++ [s]) false
      ⟨mid.names ++ [s], .link target⟩ :=
    (h.of_mustBeDir (by simp) hused).append hstop (List.cons_ne_nil s [])
  rw [endsInLink, (walk_eq_ok_iff rfl).mpr hwalks]
  rfl

/-- A name and a `..` behind it say nothing, unless the name leads to a link. -/
lemma Walks.of_name_dotDot {links : Nat} {place rest : List Name} {s : Name} {mustBeDir : Bool}
    {l : Located} (hs : Name.IsProper s)
    (h : Walks root manner links place (s :: Name.dotDot :: rest) mustBeDir l)
    (hnot : ∀ target, ¬Entry root manner place s (.link target)) :
    Walks root manner links place rest mustBeDir l := by
  cases h with
  | dot _ _ => exact absurd rfl hs.ne_dot
  | up _ _ => exact absurd rfl hs.ne_dotDot
  | name _ _ hrest =>
    have hup := hrest.of_dotDot
    rwa [List.dropLast_concat] at hup
  | follow he _ _ _ => exact absurd he (hnot _)

/-- Folding dots by spelling does not change where a walk leads, if no `..` takes back a link: for
each of them, the names in front of it, folded, do not lead to one. The names that come before the
folded ones are arbitrary, but a path at the root has none. -/
theorem Walks.fold (hlast : manner.followsLast = true) {rooted : Bool} {base segments : List Name}
    {links : Nat} {mustBeDir : Bool} {l : Located}
    (hbase : rooted = true → base = []) (hsegments : ∀ s ∈ segments, Name.IsSegment s)
    (hlinks : links ≤ linkLimit)
    (hback : ∀ init, init ++ [Name.dotDot] <+: segments →
      endsInLink root (base ++ Path.foldSegments rooted init) = false)
    (h : Walks root manner links [] (base ++ segments) mustBeDir l) :
    Walks root manner links [] (base ++ Path.foldSegments rooted segments) mustBeDir l := by
  -- The part of the segments that is folded already grows by one segment after the other.
  suffices hall : ∀ rest init, segments = init ++ rest →
      Walks root manner links [] (base ++ Path.foldSegments rooted init ++ rest) mustBeDir l →
      Walks root manner links [] (base ++ Path.foldSegments rooted segments) mustBeDir l by
    refine hall segments [] rfl ?_
    have hnil : Path.foldSegments rooted [] = [] := rfl
    rwa [hnil, List.append_nil]
  intro rest
  induction rest with
  | nil =>
    intro init hsplit hwalks
    rw [List.append_nil] at hsplit hwalks
    rwa [hsplit]
  | cons s rest ih =>
    intro init hsplit hwalks
    refine ih (init ++ [s]) (by rw [hsplit, List.append_assoc]; rfl) ?_
    have hinit : ∀ t ∈ init, Name.IsSegment t := fun t ht => hsegments t (by simp [hsplit, ht])
    rcases Path.cases_foldSegments_concat rooted (s := s) hinit with
      hpush | ⟨rfl, hdot⟩ | ⟨rfl, t, ht, hup⟩ | ⟨rfl, hrooted, hnil, htop⟩
    · rw [hpush, ← List.append_assoc, List.append_assoc _ [s]]
      exact hwalks
    · obtain ⟨used, left, mid, rfl, hfirst, hsecond⟩ := hwalks.split (List.cons_ne_nil _ _)
      rw [hdot]
      exact hfirst.append_of_followsLast hlast hsecond.of_dot
    · rw [hup, ← List.append_assoc, List.append_assoc _ [t]] at hwalks
      obtain ⟨used, left, mid, rfl, hfirst, hsecond⟩ := hwalks.split (List.cons_ne_nil _ _)
      refine hfirst.append_of_followsLast hlast (hsecond.of_name_dotDot ht ?_)
      intro target he
      have hlink := hfirst.endsInLink_concat (Nat.le_trans (Nat.le_add_right used left) hlinks) he
      rw [List.append_assoc, ← hup] at hlink
      rw [hback init (by rw [hsplit]; exact ⟨rest, by simp⟩)] at hlink
      cases hlink
    · rw [hbase hrooted, hnil] at hwalks
      rw [hbase hrooted, htop]
      exact hwalks.of_dotDot

end

end Host

end ContentMounts
