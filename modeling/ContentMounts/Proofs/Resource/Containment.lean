import ContentMounts.Proofs.Host.Parts
import ContentMounts.Proofs.Resource.File
import ContentMounts.Proofs.Resource.Uri

/-!
# Containment

Whether a resource of the host lies under another one is judged by one path for each of them. That
path is not always the one that leads to the object without links: dots are folded by spelling, and
the target of a link is not looked at any further. `judged` is the path by which a resource is
judged (`target?_eq_judged`), so containment is what it says of these paths
(`isContainedIn_iff_judged`).

Two conditions on the host make it sound (`startsWith_of_isContainedIn`). The resource that is
contained has to be `Straight`, which makes its judged path the real one: no link is met on the way
over dots, nor on the way over the target of a link. The other one need only be `Plain`: its judged
path may still hold links, but then no real path starts with it.
-/

namespace ContentMounts

/-! ## How resources are made -/

namespace FileResource

variable {h : Host}

/-- The resources of a host: whether one was made from an address, and the path that was given. -/
inductive Made (h : Host) : Bool → Path → FileResource → Prop
  /-- From an address. -/
  | new {input : Text} {raw : Path} {r : FileResource} :
      ofUri h.platform input = .ok r → Uri.literalPath? input = some raw → Made h true raw r
  /-- From a path. -/
  | fromPath {raw : Path} {r : FileResource} :
      ofPath h.platform (Host.pathOf h.workingDir) raw = .ok r → Made h false raw r
  /-- From what a path names below a resource. -/
  | resolve {given : Bool} {above raw : Path} {base r : FileResource} {sub : Text} :
      Made h given above base → base.resolve h.platform sub = .ok r →
      Uri.literalPath? (below base.literal sub) = some raw → Made h true raw r

/-- What making a resource determines of it. -/
structure Resolves (h : Host) (given : Bool) (raw : Path) (r : FileResource) : Prop where
  isAbsolute : r.path.isAbsolute = true
  collapsed : r.path = Path.ofSegments true r.path.segments
  raw_isAbsolute : given = true → raw.isAbsolute = true
  segments_eq : raw.isAbsolute = true → r.path.segments = raw.segments
  alias_eq : r.aliasPath = h.platform.detect given raw r.path

lemma resolves_collapse {given : Bool} {raw p : Path} {r : FileResource}
    (hp : p.isAbsolute = true) (hpath : r.path = p.collapse)
    (hgiven : given = true → raw.isAbsolute = true) (hraw : raw.isAbsolute = true → p = raw)
    (halias : r.aliasPath = h.platform.detect given raw r.path) : Resolves h given raw r where
  isAbsolute := by rw [hpath, Path.isAbsolute_collapse, hp]
  collapsed := by rw [hpath, Path.segments_collapse, Path.collapse_of_isAbsolute hp]
  raw_isAbsolute := hgiven
  segments_eq habs := by rw [hpath, Path.segments_collapse, hraw habs]
  alias_eq := halias

lemma resolves_of_ofUri {input : Text} {raw : Path} {r : FileResource}
    (hr : ofUri h.platform input = .ok r) (hraw : Uri.literalPath? input = some raw) :
    Resolves h true raw r := by
  obtain ⟨spelled, hof⟩ := exists_isOfUri hr
  obtain rfl : raw = spelled := Option.some.inj (hraw.symm.trans hof.literalPath?_eq)
  have habs := Uri.isAbsolute_of_literalPath? hraw
  refine resolves_collapse habs hof.path_eq (fun _ => habs) (fun _ => rfl) ?_
  rw [hof.path_eq, hof.alias_eq]

/-- A resource resolves the path it was made from. -/
lemma Made.resolves {given : Bool} {raw : Path} {r : FileResource} (hr : Made h given raw r) :
    Resolves h given raw r := by
  cases hr with
  | new hr hraw => exact resolves_of_ofUri hr hraw
  | resolve _ hr hraw => exact resolves_of_ofUri hr hraw
  | fromPath hr =>
    have hof := isOfPath_of_ofPath hr
    have hpath := hof.path_eq
    unfold Platform.anchor at hpath
    cases habs : raw.isAbsolute with
    | true =>
      rw [if_pos habs] at hpath
      exact resolves_collapse habs hpath (by simp) (fun _ => rfl) hof.alias_eq
    | false =>
      rw [if_neg (by simp [habs])] at hpath
      exact resolves_collapse (Path.isAbsolute_join rfl raw) hpath (by simp) (by simp [habs])
        hof.alias_eq

/-! ## The path by which a resource is judged -/

/-- What a link at a path holds, taken from the directory that the link is in. -/
def targetFrom (path target : Path) : Path := path.parent.elim target (·.join target)

/-- The path by which a resource is judged if its object really is at a given path. A literal path
that is not the one of an own address is judged by the real path. Otherwise dots are folded, and a
link is judged by its target, as far as these can be told by spelling. -/
def judged (h : Host) (given : Bool) (raw path real : Path) : Option Path :=
  if given && raw != h.platform.ownUriPath path then some real
  else if path.hasDots then if raw.isAbsolute then some path.fold else none
  else match h.lstat path with
    | .ok (.link target) => some (targetFrom path target).fold
    | _ => some (if h.pathExists path then real else path)

/-- What is in the way of a path is spelled from its names. -/
lemma exists_parent_of_link {path : Path} (hcollapsed : path = Path.ofSegments true path.segments)
    (hdots : path.hasDots = false) {target : Path} (hlink : h.lstat path = .ok (.link target)) :
    ∃ init s, path.segments = init ++ [s] ∧ path.parent = some (Path.ofSegments true init) ∧
      path.endsInSlash = false := by
  have hproper := Path.hasDots_eq_false_iff.mp hdots
  have habs : path.isAbsolute = true := by rw [hcollapsed]; rfl
  obtain ⟨names, hwalks⟩ := Host.exists_walks_of_lstat habs hlink
  rcases List.eq_nil_or_concat' path.segments with hnil | ⟨init, s, hconcat⟩
  · rw [hnil] at hwalks
    cases hwalks with
    | here hn _ => cases hn
  · rw [hconcat] at hcollapsed hproper
    refine ⟨init, s, hconcat, ?_, ?_⟩
    · rw [hcollapsed]
      exact Path.parent_ofSegments hproper
    · rw [hcollapsed]
      exact Path.endsInSlash_ofSegments (fun t ht => (hproper t ht).toIsSegment) (by simp) true

section

variable {given : Bool} {raw c : Path} {r : FileResource}

lemma encodingAlias?_eq {path : Path} (hraw : raw.isAbsolute = true)
    (habs : path.isAbsolute = true) (hsegments : path.segments = raw.segments)
    (hc : h.canonicalize path = .ok c) :
    h.platform.encodingAlias? raw path =
      if raw = h.platform.ownUriPath path then none else some c := by
  unfold Platform.encodingAlias?
  split
  · rfl
  · have hreal : h.platform.realPath path = .ok c := hc
    rw [hreal]
    cases hown : h.platform.realPath raw with
    | error e => rfl
    | ok real =>
      have hleads := (Host.leadsTo_of_canonicalize habs hc).congr hsegments
      rw [(Host.leadsTo_of_canonicalize hraw hown).unique hleads]

lemma dotAlias?_eq {path : Path} (habs : path.isAbsolute = true) :
    h.platform.dotAlias? raw path = if path.hasDots then some raw.fold else none := by
  have hname : h.platform.sameName path (h.platform.normalize path) = !path.hasDots := by
    rw [Bool.eq_iff_iff, Bool.not_eq_true', Path.hasDots_eq_false_iff]
    exact Path.sameSegments_fold_iff habs
  rw [Platform.dotAlias?, hname]
  cases path.hasDots <;> rfl

lemma linkAlias?_eq (path : Path) :
    h.platform.linkAlias? path =
      match h.lstat path with
      | .ok (.link target) => some (targetFrom path target)
      | _ => none := by
  have hlink : h.platform.isSymlink path = (h.lstat path).map Node.isLink := rfl
  have hread : h.platform.readLink path = h.readLink path := rfl
  unfold Platform.linkAlias?
  rw [hlink, hread, Host.readLink]
  cases h.lstat path with
  | error e => rfl
  | ok n => cases n <;> rfl

lemma realAlias?_eq (hr : Resolves h given raw r) (hc : h.canonicalize r.path = .ok c) :
    (h.platform.realAlias? r.path).getD r.path = if h.pathExists r.path then c else r.path := by
  have hexists : h.platform.pathExists r.path = h.pathExists r.path := rfl
  have hreal : h.platform.realPath r.path = .ok c := hc
  obtain ⟨names, -, hnames, hproper, -⟩ := Host.exists_names_of_canonicalize hr.isAbsolute hc
  rw [Platform.realAlias?, hexists, hreal]
  cases h.pathExists r.path with
  | false => rfl
  | true =>
    rw [if_pos rfl, if_pos rfl]
    dsimp only
    split
    · next hsame =>
      have hsegments : r.path.segments = c.segments := by
        simpa [Host.platform, Path.sameSegments] using hsame
      rw [hnames, Host.pathOf,
        Path.segments_ofSegments true fun s hs => (hproper s hs).toIsSegment] at hsegments
      rw [Option.getD_none, hr.collapsed, hsegments, hnames, Host.pathOf]
    · rfl

/-- The alias of a resource, or else its path. -/
lemma getD_aliasPath (hr : Resolves h given raw r) (hc : h.canonicalize r.path = .ok c) :
    r.aliasPath.getD r.path =
      if given && raw != h.platform.ownUriPath r.path then c
      else if r.path.hasDots then raw.fold
      else match h.lstat r.path with
        | .ok (.link target) => targetFrom r.path target
        | _ => if h.pathExists r.path then c else r.path := by
  have hencoding : (if given then h.platform.encodingAlias? raw r.path else none) =
      if given && raw != h.platform.ownUriPath r.path then some c else none := by
    cases hgiven : given with
    | false => rfl
    | true =>
      have habs := hr.raw_isAbsolute hgiven
      rw [if_pos rfl, encodingAlias?_eq habs hr.isAbsolute (hr.segments_eq habs) hc]
      by_cases heq : raw = h.platform.ownUriPath r.path
      · simp [heq]
      · simp [heq]
  rw [hr.alias_eq, Platform.detect, hencoding, dotAlias?_eq hr.isAbsolute, linkAlias?_eq]
  cases given && raw != h.platform.ownUriPath r.path with
  | true => rfl
  | false =>
    cases r.path.hasDots with
    | true => rfl
    | false =>
      cases hlstat : h.lstat r.path with
      | error e => exact realAlias?_eq hr hc
      | ok n =>
        cases n with
        | link target => rfl
        | file id => exact realAlias?_eq hr hc
        | dir modified es => exact realAlias?_eq hr hc

/-- A resource is judged by the folded alias, or else by its folded path, unless that is relative. -/
lemma target?_eq_ite (r : FileResource) :
    r.target? h.platform =
      if (r.aliasPath.getD r.path).isAbsolute then some (r.aliasPath.getD r.path).fold
      else none := by
  rw [← Path.isAbsolute_fold]
  rfl

/-- A resource is judged by the judged path. -/
theorem target?_eq_judged (hr : Resolves h given raw r) (hc : h.canonicalize r.path = .ok c) :
    r.target? h.platform = judged h given raw r.path c := by
  obtain ⟨names, -, hnames, hproper, -⟩ := Host.exists_names_of_canonicalize hr.isAbsolute hc
  have hreal : (if c.isAbsolute then some c.fold else none) = some c := by
    rw [hnames, Host.pathOf, Path.isAbsolute_ofSegments_true, if_pos rfl,
      Path.fold_ofSegments hproper]
  rw [target?_eq_ite, getD_aliasPath hr hc, judged]
  cases given && raw != h.platform.ownUriPath r.path with
  | true => exact hreal
  | false =>
    rw [if_neg Bool.false_ne_true, if_neg Bool.false_ne_true]
    cases hdots : r.path.hasDots with
    | true =>
      rw [if_pos rfl, if_pos rfl, Path.isAbsolute_fold]
      cases habs : raw.isAbsolute with
      | false => rfl
      | true =>
        rw [if_pos rfl, if_pos rfl, Path.fold_fold habs, Path.fold, Path.fold, habs, hr.isAbsolute,
          hr.segments_eq habs]
    | false =>
      rw [if_neg Bool.false_ne_true, if_neg Bool.false_ne_true]
      have hother : (if (if h.pathExists r.path then c else r.path).isAbsolute
          then some (if h.pathExists r.path then c else r.path).fold else none) =
          some (if h.pathExists r.path then c else r.path) := by
        cases h.pathExists r.path with
        | true => exact hreal
        | false =>
          have hfold : r.path.fold = r.path := by
            rw [hr.collapsed, Path.fold_ofSegments (Path.hasDots_eq_false_iff.mp hdots)]
          rw [if_neg Bool.false_ne_true, hr.isAbsolute, if_pos rfl, hfold]
      cases hlstat : h.lstat r.path with
      | error e => exact hother
      | ok n =>
        cases n with
        | file id => exact hother
        | dir modified es => exact hother
        | link target =>
          obtain ⟨init, s, -, hparent, -⟩ := exists_parent_of_link hr.collapsed hdots hlstat
          have hjoin : (targetFrom r.path target).isAbsolute = true := by
            rw [targetFrom, hparent]
            exact Path.isAbsolute_join rfl target
          dsimp only
          rw [hjoin, if_pos rfl]

end

/-! ## Where the judged path is the real one -/

/-- A path leads somewhere without a link on the way. -/
def MeetsNoLink (h : Host) (p : Path) : Prop :=
  ∃ l, Host.walk h.root {} 0 [] p.segments false = .ok l

/-- No link is met on the way over dots, neither those of a path nor those in what a link at the
path holds; and the path can be looked at. -/
structure Plain (h : Host) (path : Path) : Prop where
  dots : path.hasDots = true → MeetsNoLink h path
  target_dots : ∀ target, h.lstat path = .ok (.link target) → target.hasDots = true →
    MeetsNoLink h (targetFrom path target)
  found : h.pathExists path = true

/-- Besides, no link is met on the way over what a link at the path holds. -/
structure Straight (h : Host) (path : Path) : Prop extends Plain h path where
  target : ∀ target, h.lstat path = .ok (.link target) → MeetsNoLink h (targetFrom path target)

/-- Where no link is met, folding the dots gives the real path. -/
lemma MeetsNoLink.fold_eq {p c : Path} (habs : p.isAbsolute = true) (hp : MeetsNoLink h p)
    (hc : h.LeadsTo p c) : p.fold = c := by
  obtain ⟨l, hl⟩ := hp
  have hwalks := (Host.walk_eq_ok_iff rfl).mp hl
  have hnames := hwalks.names_eq_fold rfl
  rw [List.reverse_nil] at hnames
  have hfold : Path.foldSegments true p.segments = l.names := by
    rw [Path.foldSegments, hnames, Path.Folded.segments, List.replicate_zero, List.nil_append,
      List.reverse_reverse]
  rw [hc.unique (Host.leadsTo_of_walks hwalks (Nat.zero_le Host.linkLimit)), Path.fold, habs, hfold,
    Host.pathOf]

section

variable {given : Bool} {raw c : Path} {r : FileResource}

/-- What a link holds, taken from the directory that the link is in, is spelled from the segments of
the link's path and its own. The walk that respells leads there where it leads over the link. -/
lemma exists_walks_targetFrom {path target : Path}
    (hcollapsed : path = Path.ofSegments true path.segments) (hdots : path.hasDots = false)
    (hlink : h.lstat path = .ok (.link target)) (hc : h.canonicalize path = .ok c) :
    (targetFrom path target).isAbsolute = true ∧
      (∀ t ∈ (targetFrom path target).segments, t ∈ path.segments ∨ t ∈ target.segments) ∧
      (∃ place, h.root.find? place = some (.link target)) ∧
      ∃ l, c = Host.pathOf l.names ∧
        Host.Walks h.root { respells := true } Host.linkLimit [] (targetFrom path target).segments
          (targetFrom path target).endsInSlash l := by
  have habs : path.isAbsolute = true := by rw [hcollapsed]; rfl
  obtain ⟨init, s, hsegments, hparent, hslash⟩ := exists_parent_of_link hcollapsed hdots hlink
  have hproper := Path.hasDots_eq_false_iff.mp hdots
  obtain ⟨names, hstop⟩ := Host.exists_walks_of_lstat habs hlink
  obtain ⟨l, hl, rfl, -⟩ := Host.exists_respelled_of_canonicalize habs hc
  rw [hslash, hsegments] at hstop hl
  rw [hsegments] at hproper ⊢
  obtain ⟨used, left, mid, hlinks, hfirst, hfound, hempty, htarget⟩ :=
    hl.parts_of_link rfl (hproper s (by simp)) hstop
  have hjoin : targetFrom path target = (Path.ofSegments true init).join target := by
    rw [targetFrom, hparent]
    rfl
  rw [hjoin]
  refine ⟨Path.isAbsolute_join rfl target, ?_⟩
  cases htabs : target.isAbsolute with
  | true =>
    rw [Host.linkStart, if_pos htabs] at htarget
    rw [Path.join, if_pos htabs]
    exact ⟨fun t ht => .inr ht, ⟨_, hfound⟩, l, rfl, htarget.of_le (by omega)⟩
  | false =>
    rw [Host.linkStart, if_neg (by simp [htabs])] at htarget
    have hwhole := hfirst.append htarget (Path.segments_ne_nil htabs hempty)
    rw [Path.segments_join htabs, Path.segments_ofSegments true fun t ht =>
        (hproper t (List.mem_append_left [s] ht)).toIsSegment,
      Path.endsInSlash_join _ (by simpa using hempty)]
    refine ⟨fun t ht => ?_, ⟨_, hfound⟩, l, rfl, hwhole.of_le (by omega)⟩
    exact (List.mem_append.mp ht).imp_left (List.mem_append_left [s])

/-- What a link holds leads where the link leads. -/
lemma leadsTo_targetFrom (hr : Resolves h given raw r) (hc : h.canonicalize r.path = .ok c)
    (hdots : r.path.hasDots = false) {target : Path} (hlink : h.lstat r.path = .ok (.link target)) :
    (targetFrom r.path target).isAbsolute = true ∧ h.LeadsTo (targetFrom r.path target) c ∧
      (target.hasDots = false → (targetFrom r.path target).hasDots = false) := by
  obtain ⟨habs, hsegments, -, l, rfl, hl⟩ := exists_walks_targetFrom hr.collapsed hdots hlink hc
  refine ⟨habs, ⟨l, hl.weaken rfl rfl (by simp) (Nat.le_refl _) (by simp), rfl⟩, fun htarget => ?_⟩
  rw [Path.hasDots_eq_false_iff]
  intro t ht
  rcases hsegments t ht with hold | hnew
  · exact Path.hasDots_eq_false_iff.mp hdots t hold
  · exact Path.hasDots_eq_false_iff.mp htarget t hnew

/-- The judged path of a resource that can be looked at is the real path, or the dots of its path or
of what a link holds are folded in it. -/
lemma cases_of_judged {path p : Path}
    (hfound : (given && raw != h.platform.ownUriPath path) = false → h.pathExists path = true)
    (hp : judged h given raw path c = some p) :
    p = c ∨ (given && raw != h.platform.ownUriPath path) = false ∧
      ((path.hasDots = true ∧ p = path.fold) ∨
        (path.hasDots = false ∧ ∃ target, h.lstat path = .ok (.link target) ∧
          p = (targetFrom path target).fold)) := by
  unfold judged at hp
  cases hencoding : (given && raw != h.platform.ownUriPath path) with
  | true =>
    rw [hencoding, if_pos rfl] at hp
    exact .inl (Option.some.inj hp).symm
  | false =>
    rw [hencoding, if_neg Bool.false_ne_true] at hp
    cases hdots : path.hasDots with
    | true =>
      rw [hdots, if_pos rfl] at hp
      split at hp
      · exact .inr ⟨rfl, .inl ⟨rfl, (Option.some.inj hp).symm⟩⟩
      · cases hp
    | false =>
      rw [hdots, if_neg Bool.false_ne_true, hfound hencoding, if_pos rfl] at hp
      split at hp
      · next target hlink =>
        exact .inr ⟨rfl, .inr ⟨rfl, target, hlink, (Option.some.inj hp).symm⟩⟩
      · exact .inl (Option.some.inj hp).symm

/-- The condition `P` on the path of a resource, unless the resource was given by a spelling that is
not its own, so that its real path is judged. -/
def OwnSpelling (h : Host) (P : Host → Path → Prop) (given : Bool) (raw path : Path) : Prop :=
  (given && raw != h.platform.ownUriPath path) = false → P h path

/-- The judged path of a straight resource is its real path. -/
lemma eq_of_judged (hr : Resolves h given raw r) (hc : h.canonicalize r.path = .ok c)
    (hstraight : OwnSpelling h Straight given raw r.path) {p : Path}
    (hp : judged h given raw r.path c = some p) : p = c := by
  rcases cases_of_judged (fun hown => (hstraight hown).found) hp with
    hreal | ⟨hown, ⟨hdots, rfl⟩ | ⟨hdots, target, hlink, rfl⟩⟩
  · exact hreal
  · exact ((hstraight hown).dots hdots).fold_eq hr.isAbsolute
      (Host.leadsTo_of_canonicalize hr.isAbsolute hc)
  · obtain ⟨habs, hleads, -⟩ := leadsTo_targetFrom hr hc hdots hlink
    exact ((hstraight hown).target target hlink).fold_eq habs hleads

/-- The judged path of a plain resource is its real path, or leads there without dots. -/
lemma leadsTo_of_judged (hr : Resolves h given raw r) (hc : h.canonicalize r.path = .ok c)
    (hplain : OwnSpelling h Plain given raw r.path) {p : Path}
    (hp : judged h given raw r.path c = some p) :
    p = c ∨ ∃ names, p = Host.pathOf names ∧ (∀ s ∈ names, Name.IsProper s) ∧ h.LeadsTo p c := by
  rcases cases_of_judged (fun hown => (hplain hown).found) hp with
    hreal | ⟨hown, ⟨hdots, rfl⟩ | ⟨hdots, target, hlink, rfl⟩⟩
  · exact .inl hreal
  · exact .inl (((hplain hown).dots hdots).fold_eq hr.isAbsolute
      (Host.leadsTo_of_canonicalize hr.isAbsolute hc))
  · obtain ⟨habs, hleads, hproper⟩ := leadsTo_targetFrom hr hc hdots hlink
    cases htarget : target.hasDots with
    | true => exact .inl (((hplain hown).target_dots target hlink htarget).fold_eq habs hleads)
    | false =>
      have hnames := Path.hasDots_eq_false_iff.mp (hproper htarget)
      have hfold : (targetFrom r.path target).fold =
          Host.pathOf (targetFrom r.path target).segments := by
        rw [Path.fold, habs, Path.foldSegments_of_isProper true hnames, Host.pathOf]
      refine .inr ⟨_, hfold, hnames, hleads.congr ?_⟩
      rw [hfold, Host.pathOf, Path.segments_ofSegments true fun s hs => (hnames s hs).toIsSegment]

/-- A path without dots that a real path starts with is a real path itself. -/
lemma eq_of_startsWith {names : List Name} {b : Path} (hr : Resolves h given raw r)
    (hc : h.canonicalize r.path = .ok c) (hnames : ∀ s ∈ names, Name.IsProper s)
    (hb : h.LeadsTo (Host.pathOf names) b) (hstarts : c.startsWith (Host.pathOf names) = true) :
    Host.pathOf names = b := by
  obtain ⟨all, n, rfl, hproper, hn, hnot⟩ := Host.exists_names_of_canonicalize hr.isAbsolute hc
  obtain ⟨l, hl, rfl⟩ := hb
  obtain ⟨rest, rfl⟩ := (Path.startsWith_ofSegments_iff hproper hnames).mp hstarts
  obtain ⟨above, habove, hlink⟩ := Host.exists_find?_of_append hn hnot
  rw [Host.pathOf, Path.segments_ofSegments true fun s hs => (hnames s hs).toIsSegment] at hl
  rw [hl.names_eq_of_find? hnames habove hlink, List.nil_append]

end

/-! ## Containment -/

/-- Containment says of the judged paths of two resources that one of them starts with the other. -/
theorem isContainedIn_iff_judged {given given' : Bool} {raw raw' c b : Path}
    {child base : FileResource} (hchild : Made h given raw child) (hbase : Made h given' raw' base)
    (hc : h.canonicalize child.path = .ok c) (hb : h.canonicalize base.path = .ok b) :
    child.isContainedIn h.platform base = true ↔
      ∃ p q, judged h given raw child.path c = some p ∧ judged h given' raw' base.path b = some q ∧
        p.startsWith q = true := by
  rw [isContainedIn, target?_eq_judged hchild.resolves hc, target?_eq_judged hbase.resolves hb]
  constructor
  · intro hcontained
    split at hcontained
    · next p q hp hq => exact ⟨p, q, hp, hq, hcontained⟩
    · cases hcontained
  · rintro ⟨p, q, hp, hq, hstarts⟩
    rw [hp, hq]
    exact hstarts

/-- Let a straight resource be contained in a plain one. Then its real path, where what it reaches
is found, lies under the real path of the other. -/
theorem startsWith_of_isContainedIn {given given' : Bool} {raw raw' c b : Path}
    {child base : FileResource} (hchild : Made h given raw child) (hbase : Made h given' raw' base)
    (hc : h.canonicalize child.path = .ok c) (hb : h.canonicalize base.path = .ok b)
    (hstraight : OwnSpelling h Straight given raw child.path)
    (hplain : OwnSpelling h Plain given' raw' base.path)
    (hcontained : child.isContainedIn h.platform base = true) :
    c.startsWith b = true ∧ ∀ n, h.stat child.path = .ok n →
      ∃ names, c = Host.pathOf names ∧ h.root.find? names = some n := by
  refine ⟨?_, fun n hn => Host.exists_find?_of_canonicalize hchild.resolves.isAbsolute hc hn⟩
  obtain ⟨p, q, hp, hq, hstarts⟩ := (isContainedIn_iff_judged hchild hbase hc hb).mp hcontained
  obtain rfl := eq_of_judged hchild.resolves hc hstraight hp
  rcases leadsTo_of_judged hbase.resolves hb hplain hq with rfl | ⟨names, rfl, hnames, hleads⟩
  · exact hstarts
  · rw [← eq_of_startsWith hchild.resolves hc hnames hleads hstarts]
    exact hstarts

/-! ### A directory with a way out -/

/-- A host with a directory in which one link leads to a page and another one, by way of a third,
out of the directory. -/
def siteHost : Host where
  rootModified := .tick 0
  rootEntries :=
    [(Utf8.encode "www".toList, .dir (.tick 0)
      [(Utf8.encode "page".toList, .file 0),
        (Utf8.encode "front".toList, .link (Path.ofText "page".toList)),
        (Utf8.encode "exit".toList, .link (Path.ofText "door".toList)),
        (Utf8.encode "door".toList, .link (Path.ofText "../secret".toList))]),
      (Utf8.encode "secret".toList, .file 1)]
  files := [⟨[], .tick 0⟩, ⟨[], .tick 0⟩]
  clock := 1
  workingDir := []

/-- The resource for the directory. -/
def site : FileResource where
  uri := ⟨"file".toList, some [], "/www".toList, none, none⟩
  literal := "file:///www".toList
  path := Path.ofText "/www".toList
  aliasPath := none

/-- The resource for a link in the directory. -/
def siteLink (name target : String) : FileResource where
  uri := ⟨"file".toList, some [], "/www/".toList ++ name.toList, none, none⟩
  literal := "file:///www/".toList ++ name.toList
  path := Path.ofText ("/www/".toList ++ name.toList)
  aliasPath := some (Path.ofText ("/www/".toList ++ target.toList))

lemma made_site : Made siteHost false site.path site :=
  .fromPath (eq_ok_of_toOption (by decide +kernel))

lemma made_front :
    Made siteHost true (siteLink "front" "page").path (siteLink "front" "page") := by
  have hbelow : site.resolve siteHost.platform "front".toList = .ok (siteLink "front" "page") :=
    eq_ok_of_toOption (by decide +kernel)
  exact .resolve made_site hbelow (by decide +kernel)

lemma made_exit : Made siteHost true (siteLink "exit" "door").path (siteLink "exit" "door") := by
  have hbelow : site.resolve siteHost.platform "exit".toList = .ok (siteLink "exit" "door") :=
    eq_ok_of_toOption (by decide +kernel)
  exact .resolve made_site hbelow (by decide +kernel)

/-- The page is contained in the directory, also by way of the link. -/
theorem startsWith_site_of_front :
    ∃ b c, siteHost.canonicalize site.path = .ok b ∧
      siteHost.canonicalize (siteLink "front" "page").path = .ok c ∧
      (siteLink "front" "page").isContainedIn siteHost.platform site = true ∧
      c.startsWith b = true := by
  have hb : siteHost.canonicalize site.path = .ok site.path := eq_ok_of_toOption (by decide +kernel)
  have hc : siteHost.canonicalize (siteLink "front" "page").path =
      .ok (Path.ofText "/www/page".toList) := eq_ok_of_toOption (by decide +kernel)
  have hin : (siteLink "front" "page").isContainedIn siteHost.platform site = true := by
    decide +kernel
  have htarget : ∀ target, siteHost.lstat (siteLink "front" "page").path = .ok (.link target) →
      MeetsNoLink siteHost (targetFrom (siteLink "front" "page").path target) := by
    intro target hlink
    have hheld : siteHost.lstat (siteLink "front" "page").path =
        .ok (.link (Path.ofText "page".toList)) := by rfl
    rw [hheld] at hlink
    cases hlink
    exact ⟨⟨[Utf8.encode "www".toList, Utf8.encode "page".toList], .file 0⟩, by rfl⟩
  have hnot : ∀ target, siteHost.lstat site.path ≠ .ok (.link target) := by
    intro target hlink
    have hheld : (siteHost.lstat site.path).map Node.isLink = .ok false := by rfl
    rw [hlink] at hheld
    cases hheld
  have hfront : Straight siteHost (siteLink "front" "page").path :=
    { dots := fun hdots => absurd hdots (by decide +kernel)
      target_dots := fun target hlink _ => htarget target hlink
      found := by decide +kernel
      target := htarget }
  have hsite : Plain siteHost site.path :=
    { dots := fun hdots => absurd hdots (by decide +kernel)
      target_dots := fun target hlink _ => absurd hlink (hnot target)
      found := by decide +kernel }
  obtain ⟨hunder, -⟩ := startsWith_of_isContainedIn made_front made_site hc hb (fun _ => hfront)
    (fun _ => hsite) hin
  exact ⟨_, _, hb, hc, hin, hunder⟩

/-- By way of two links a resource outside is contained too. -/
theorem isContainedIn_site_of_exit :
    ∃ b c, Made siteHost false site.path site ∧
      Made siteHost true (siteLink "exit" "door").path (siteLink "exit" "door") ∧
      siteHost.canonicalize site.path = .ok b ∧
      siteHost.canonicalize (siteLink "exit" "door").path = .ok c ∧
      (siteLink "exit" "door").isContainedIn siteHost.platform site = true ∧
      c.startsWith b = false := by
  refine ⟨site.path, Path.ofText "/secret".toList, made_site, made_exit, ?_, ?_, ?_, ?_⟩
  · exact eq_ok_of_toOption (by decide +kernel)
  · exact eq_ok_of_toOption (by decide +kernel)
  · decide +kernel
  · decide +kernel

end FileResource

end ContentMounts
