import ContentMounts.Proofs.Archive.Key
import ContentMounts.Proofs.Path.Spelled
import ContentMounts.Proofs.Pool.Navigation
import ContentMounts.Proofs.Pool.Staleness
import ContentMounts.Proofs.Url.Form

/-!
# Names of entries

What a handle asks its filesystem for is written behind the root address of its mount, and the
filesystem reads the entry off that address again. Behind a root with an opaque path, in which the
mark in front of an entry stands at the end only (`Url.IsEntryRoot`), no name is lost on the way:
what is written is read as one address (`IsEntryRoot.parse_append`), it is cut where it was put
together (`IsEntryRoot.containerEntry_eq`), and the escapes and the bytes of the names are read as
the names (`decodeLossy_entryBehind`). The roots of archives are of this kind, unless a directory on
the way to the archive has a name that ends in `!` (`Archive.isEntryRoot_iff`).
-/

namespace ContentMounts

/-! ## Reading names -/

namespace Percent

/-- Names that are written with slashes between them are read with slashes between them. -/
lemma decode_intercalate_encodeSegment (names : List Text) :
    decode (List.intercalate ['/'] (names.map encodeSegment)) =
      Utf8.encode (List.intercalate ['/'] names) := by
  induction names with
  | nil => rfl
  | cons name rest ih =>
    cases rest with
    | nil =>
      rw [List.map_singleton, List.intercalate_singleton, List.intercalate_singleton]
      exact decode_encodeSegment name
    | cons next rest =>
      rw [List.map_cons] at ih
      rw [List.map_cons, List.map_cons, List.intercalate_cons_cons, List.intercalate_cons_cons,
        List.append_assoc, List.append_assoc, List.singleton_append, List.singleton_append,
        decode_append_cons Path.isCut_slash, decode_encodeSegment, ih, Utf8.encode_append,
        Utf8.encode_cons]
      rfl

end Percent

/-- What is written of an entry is read as its names, with a slash behind them if one was written
there. -/
lemma decodeLossy_entryBehind (entry : Text) :
    Utf8.decodeLossy (Percent.decode (entryBehind entry)) =
      List.intercalate ['/'] (namesOf entry) ++
        if entry.getLast? = some '/' ∧ namesOf entry ≠ [] then ['/'] else [] := by
  have hbytes : Percent.decode (entryBehind entry) =
      Utf8.encode (List.intercalate ['/'] (namesOf entry) ++
        if entry.getLast? = some '/' ∧ namesOf entry ≠ [] then ['/'] else []) := by
    unfold entryBehind namesOf
    dsimp only
    split
    · rw [Percent.decode_append_cons Path.isCut_slash, Percent.decode_intercalate_encodeSegment,
        Utf8.encode_append]
      rfl
    · rw [List.append_nil, List.append_nil]
      exact Percent.decode_intercalate_encodeSegment _
  rw [hbytes, Utf8.decodeLossy_encode]

/-! ## Roots that entries are written behind -/

namespace Url

/-- An address that entries are written behind: its path is opaque and the last of its parts, and
the mark in front of an entry stands at its end and nowhere else in it. -/
structure IsEntryRoot (key : Url) : Prop where
  exists_input : ∃ input, parse input = .ok key
  head_ne : key.path.head? ≠ some '/'
  endsInPath : key.EndsInPath
  exists_front : ∃ front, key.path = front ++ Uri.separator ∧ ¬Uri.separator <:+: front

namespace IsEntryRoot

variable {key : Url} (h : key.IsEntryRoot)

include h

lemma path_ne_nil : key.path ≠ [] := by
  obtain ⟨front, hpath, -⟩ := h.exists_front
  rw [hpath]
  simp [Uri.separator]

lemma isScheme : IsScheme key.scheme :=
  have ⟨_, hinput⟩ := h.exists_input
  (opaquePath_of_parse hinput h.path_ne_nil h.head_ne).1.1

/-- With something written behind its path such an address is its scheme and its path. -/
lemma text_append (w : Text) :
    text { key with path := key.path ++ w } = key.scheme ++ ':' :: (key.path ++ w) := by
  obtain ⟨input, hinput⟩ := h.exists_input
  obtain ⟨⟨-, -, hnone⟩, -⟩ := opaquePath_of_parse hinput h.path_ne_nil h.head_ne
  obtain ⟨c, rest, hpath⟩ := List.exists_cons_of_ne_nil h.path_ne_nil
  have hslashes : ['/', '/'].isPrefixOf (key.path ++ w) = false := by
    rw [Bool.eq_false_iff, ne_eq, List.isPrefixOf_iff_prefix, hpath]
    intro hstart
    exact h.head_ne (by rw [hpath, ← (List.cons_prefix_cons.mp hstart).1]; rfl)
  simp [text, body, front, back, hnone, hslashes, h.endsInPath.1, h.endsInPath.2]

lemma text_eq : key.text = key.scheme ++ ':' :: key.path := by
  simpa using h.text_append []

/-- Such an address is written with a slash at its end. -/
lemma slashFor_text : slashFor key.text = [] := by
  obtain ⟨front, hpath, -⟩ := h.exists_front
  have hlast : key.text = key.scheme ++ ':' :: (front ++ ['!']) ++ ['/'] := by
    rw [h.text_eq, hpath]
    simp [Uri.separator]
  rw [slashFor, hlast, List.getLast?_concat, if_pos rfl]

variable {w : Text} (hw : Percent.Stands pathSet w)

include hw

/-- What is written behind such an address as a path is read as more of its path. -/
theorem parse_append :
    parse (key.text ++ w) = .ok { key with path := key.path ++ w } := by
  obtain ⟨input, hinput⟩ := h.exists_input
  obtain ⟨⟨hscheme, hkind, hnone⟩, hstands, hends⟩ :=
    opaquePath_of_parse hinput h.path_ne_nil h.head_ne
  obtain ⟨front, hpath, -⟩ := h.exists_front
  -- nothing is trimmed: the mark is visible, even if nothing is written behind it
  have hsep : Percent.Stands pathSet Uri.separator := by decide
  have hvisible : EndsVisibly (key.path ++ w) := by
    rw [hpath, List.append_assoc]
    exact (endsVisibly_of_pathSet (hsep.append hw)).append_left (by simp [Uri.separator]) front
  have hhead : (key.path ++ w).head? ≠ some '/' := by
    rw [List.head?_append, Option.or_of_isSome (by simpa using h.path_ne_nil)]
    exact h.head_ne
  have hread := parse_of_controls hscheme hkind
    (hstands.append fun c hc => (pathChar_of_isPlain (hw c hc)).plain)
    (fun c hc => (List.mem_append.mp hc).elim (hends c)
      fun hin => (pathChar_of_isPlain (hw c hin)).not_end)
    hvisible.dropEndWhile_eq hhead
  rw [h.text_eq, List.append_assoc, List.cons_append, hread, hnone, h.endsInPath.1,
    h.endsInPath.2]

/-- The entry that is meant behind such an address is what is written there. -/
theorem containerEntry_eq :
    Uri.containerEntry { key with path := key.path ++ w } =
      Utf8.decodeLossy (Percent.decode w) := by
  obtain ⟨front, hpath, hfront⟩ := h.exists_front
  have hscheme : '!' ∉ key.scheme ++ [':'] := by
    rw [List.mem_append, not_or]
    exact ⟨fun hin => (h.isScheme.schemeChar hin).ne_bang rfl, by decide⟩
  have htext : text { key with path := key.path ++ w } =
      (key.scheme ++ [':'] ++ front) ++ '!' :: '/' :: w := by
    rw [h.text_append, hpath]
    simp [Uri.separator]
  have hcut : Text.cut? Uri.separator (text { key with path := key.path ++ w }) =
      some (key.scheme ++ [':'] ++ front, w) := by
    rw [htext]
    exact cut?_of_not_mark (by decide) (by rwa [infix_append_of_notMem hscheme])
  rw [Uri.containerEntry, hcut]
  dsimp only
  rw [takeWhile_not_endsPath_of_stands hw]

end IsEntryRoot

end Url

/-- The root address of an archive is one that entries are written behind exactly if no directory on
the way to the archive has a name that ends in `!`. -/
lemma Archive.isEntryRoot_iff {host : Host} {input : Text} {u r : Url} {path : Path}
    (hu : Url.parse input = .ok u) (hroot : root host u = .ok (r, path)) :
    r.IsEntryRoot ↔ ¬CrossesBang path := by
  obtain ⟨names, hnames, rfl, rfl, hparse⟩ := exists_rootAddress hu hroot
  have hsegments : (Host.pathOf names).segments = names :=
    Path.segments_ofSegments true fun s hs => (hnames s hs).toIsSegment
  have hfront : ¬Uri.separator <:+: (Url.fileAddress (Url.writtenNames names)).text ↔
      ¬CrossesBang (Host.pathOf names) := by
    rw [CrossesBang, hsegments, Uri.separator, infix_text_iff hnames]
  refine ⟨fun h => ?_, fun hnot => ⟨⟨_, hparse⟩, ?_, ⟨rfl, rfl⟩, _, rfl, hfront.mpr hnot⟩⟩
  · obtain ⟨front, hpath, hmark⟩ := h.exists_front
    exact hfront.mp (List.append_cancel_right hpath ▸ hmark)
  · rw [rootAddress, rootBody, Url.text_fileAddress]
    exact fun heq => absurd (Option.some.inj heq) (by decide)

namespace Pool

variable {σ ρ : Type}

/-- The names of an entry survive the address that they are written in. Behind a root with an opaque
path, in which the mark in front of an entry stands at the end only, whatever text a handle is asked
for is part of one address, and what is read off that address is the names of the entry with slashes
between them, with a slash behind them if the entry ends in one and has a name. That address is the
one the handle's filesystem is asked for, as long as the handle is live. -/
theorem containerEntry_entryUri {p : Pool ρ} {h : MountHandle ρ} {record : MountRecord}
    (hrecord : p.record? h.record = some record) (hroot : record.key.IsEntryRoot)
    (entry : Text) :
    ∃ uri, p.entryUri h entry = .ok uri ∧
      Uri.containerEntry uri = List.intercalate ['/'] (namesOf entry) ++
        (if entry.getLast? = some '/' ∧ namesOf entry ≠ [] then ['/'] else []) ∧
      (p.ensureLive h = .ok () → ∀ (B : Backend σ ρ) s,
        p.entry B h entry s = pooledAnswer h.record (B.resource record.fs uri s)) := by
  have hkey : p.keyOf h.record = record.key.text := by rw [keyOf, hrecord]; rfl
  have hstands := stands_entryBehind entry
  have huri : p.entryUri h entry =
      .ok { record.key with path := record.key.path ++ entryBehind entry } := by
    rw [entryUri, hkey, entryLiteral_eq, hroot.slashFor_text, List.append_nil, Uri.parseAbsolute,
      hroot.parse_append hstands]
    rfl
  refine ⟨_, huri, ?_, fun hlive => entry_eq_pooledAnswer hrecord hlive huri⟩
  rw [hroot.containerEntry_eq hstands, decodeLossy_entryBehind]

/-- An entry whose names hold what an address gives a meaning to. -/
def sampleEntry : Text := "/a//%2F?b#\t!/é😀 /".toList

/-- Asked for such an entry, a mounted archive looks for its names. -/
theorem containerEntry_of_sampleEntry :
    ∃ record handle uri, sampleMount.1.record? 0 = some record ∧
      sampleMount.1.handle? 0 = some handle ∧ record.key.IsEntryRoot ∧
      sampleMount.1.entryUri handle sampleEntry = .ok uri ∧
      Uri.containerEntry uri = "a/%2F?b#\t!/é😀 /".toList ∧
      sampleMount.1.entry World.backend handle sampleEntry sampleMount.2 =
        pooledAnswer 0 (World.backend.resource record.fs uri sampleMount.2) := by
  have hkeys : (sampleMount.1.record? 0).map (·.key) = some sampleRoot := by decide +kernel
  have hheld : (sampleMount.1.handle? 0).isSome = true := by decide +kernel
  have hof : (sampleMount.1.handle? 0).all (fun handle => handle.record == 0) = true := by
    decide +kernel
  have hstate : (sampleMount.1.handle? 0).all
      (fun handle => decide (sampleMount.1.ensureLive handle = .ok ())) = true := by
    decide +kernel
  obtain ⟨record, hrecord, hkey⟩ := Option.map_eq_some_iff.mp hkeys
  obtain ⟨handle, hhandle⟩ := Option.isSome_iff_exists.mp hheld
  simp only [hhandle, Option.all_some, beq_iff_eq, decide_eq_true_eq] at hof hstate
  have hparse : Url.parse sampleRoot.text = .ok sampleRoot :=
    eq_ok_of_toOption (by decide +kernel)
  have hmark : ¬Uri.separator <:+: "file:///z".toList := fun hin =>
    absurd (hin.subset (List.mem_cons_self (a := '!'))) (by decide)
  have hroot : record.key.IsEntryRoot := by
    rw [hkey]
    exact ⟨⟨_, hparse⟩, by decide, ⟨rfl, rfl⟩, _, rfl, hmark⟩
  have hanswers : sampleMount.1.record? handle.record = some record := by rw [hof, hrecord]
  obtain ⟨uri, huri, hnames, hasks⟩ :=
    containerEntry_entryUri (σ := World) hanswers hroot sampleEntry
  have hasked := hasks hstate World.backend sampleMount.2
  rw [hof] at hasked
  exact ⟨record, handle, uri, hrecord, hhandle, hroot, huri, hnames.trans (by decide +kernel),
    hasked⟩

end Pool

end ContentMounts
