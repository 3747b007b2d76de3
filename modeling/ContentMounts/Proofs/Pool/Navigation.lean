import ContentMounts.Proofs.Pool.Run
import ContentMounts.Proofs.Text.Split
import ContentMounts.Proofs.Url.Extend
import ContentMounts.Provider.World

/-!
# Entries of a mount

What a handle asks its filesystem for is an address that its key is written in front of. The names
of an entry are escaped, so that none of them ends the path or is read as an escape
(`stands_entryBehind`). Behind an opaque key they stay as they are written. Behind a key whose path
is made of segments the names `.` and `..` still count, and an entry stays in the mount as long as
its `..` take no more names away than stand in front of them (`Url.StaysIn`).
-/

namespace ContentMounts

/-- What is written of an entry behind the root of a mount. -/
def entryBehind (entry : Text) : Text :=
  let names := (entry.splitOn '/').filter (!·.isEmpty)
  List.intercalate ['/'] (names.map Percent.encodeSegment)
    ++ if entry.getLast? = some '/' ∧ names ≠ [] then ['/'] else []

lemma entryLiteral_eq (key entry : Text) :
    entryLiteral key entry = key ++ Url.slashFor key ++ entryBehind entry := by
  unfold entryLiteral entryBehind Url.slashFor
  split <;> simp

/-- The names of an entry are written so that they neither end the path nor stand for anything but
themselves. -/
lemma stands_entryBehind (entry : Text) : Percent.Stands Url.pathSet (entryBehind entry) := by
  have hslash : Percent.Stands Url.pathSet ['/'] := by decide
  refine Percent.Stands.append (fun c hc => ?_) ?_
  · rcases eq_or_exists_of_mem_intercalate hc with rfl | ⟨piece, hpiece, hin⟩
    · exact hslash _ (by simp)
    · obtain ⟨name, -, rfl⟩ := List.mem_map.mp hpiece
      exact Percent.stands_encodeSegment name c hin
  · split
    · exact hslash
    · simp [Percent.Stands]

/-- What is written of an entry does not start with a slash. -/
lemma head?_entryBehind (entry : Text) : (entryBehind entry).head? ≠ some '/' := by
  have hnames : ∀ name ∈ (entry.splitOn '/').filter (!·.isEmpty), name ≠ [] ∧ '/' ∉ name :=
    fun _ => ne_nil_of_mem_namesOf
  rw [entryBehind]
  generalize (entry.splitOn '/').filter (!·.isEmpty) = names at hnames
  cases names with
  | nil => simp
  | cons name names =>
    obtain ⟨hne, hnot⟩ := hnames name List.mem_cons_self
    obtain ⟨c, rest, hc⟩ := List.exists_cons_of_ne_nil (Percent.encodeSegment_ne_nil hne)
    have hother := Percent.slash_notMem_encodeSegment hnot
    rw [hc] at hother
    obtain ⟨tail, htail⟩ : ∃ tail, List.intercalate ['/'] ((c :: rest) :: names.map
        Percent.encodeSegment) = c :: tail := by
      cases names with
      | nil => exact ⟨rest, by simp⟩
      | cons next names => exact ⟨_, List.intercalate_cons_cons⟩
    rw [List.map_cons, hc, htail, List.cons_append, List.head?_cons]
    rintro ⟨⟩
    exact hother List.mem_cons_self

namespace Pool

variable {σ ρ : Type}

/-- What a handle makes of the answer of its filesystem. -/
def pooledAnswer (id : RecordId) :
    Except ResourceError ρ × σ → Except MountError (PooledResource ρ) × σ
  | (.ok inner, s) => (.ok ⟨id, inner⟩, s)
  | (.error e, s) => (.error (.resource e), s)

/-- A live handle asks its filesystem for the address that an entry is written as. -/
lemma entry_eq_pooledAnswer {p : Pool ρ} {h : MountHandle ρ} {record : MountRecord}
    (hrecord : p.record? h.record = some record) (hlive : p.ensureLive h = .ok ())
    {entry : Text} {uri : Url} (huri : p.entryUri h entry = .ok uri) (B : Backend σ ρ) (s : σ) :
    p.entry B h entry s = pooledAnswer h.record (B.resource record.fs uri s) := by
  rw [Pool.entry, hlive, huri, hrecord]
  dsimp only
  obtain ⟨answer, s⟩ := B.resource record.fs uri s
  cases answer <;> rfl

/-- A handle whose record there is asks its filesystem for one address at most: the entry behind its
key. -/
lemma entry_eq_or {p : Pool ρ} {h : MountHandle ρ} {record : MountRecord}
    (hrecord : p.record? h.record = some record) (entry : Text) :
    (∃ e, ∀ (B : Backend σ ρ) s, p.entry B h entry s = (.error e, s)) ∨
      ∃ uri, Url.parse (entryLiteral record.key.text entry) = .ok uri ∧
        ∀ (B : Backend σ ρ) s,
          p.entry B h entry s = pooledAnswer h.record (B.resource record.fs uri s) := by
  have hkey : p.keyOf h.record = record.key.text := by rw [keyOf, hrecord]; rfl
  cases hlive : p.ensureLive h with
  | error e => exact .inl ⟨e, fun B s => by rw [Pool.entry, hlive]⟩
  | ok live =>
    cases huri : p.entryUri h entry with
    | error e => exact .inl ⟨e, fun B s => by rw [Pool.entry, hlive, huri]⟩
    | ok uri =>
      refine .inr ⟨uri, ?_, entry_eq_pooledAnswer hrecord hlive huri⟩
      rw [entryUri, hkey, Uri.parseAbsolute] at huri
      split at huri
      · next u hparse =>
        rw [hparse, Except.ok.inj huri]
      · cases huri
      · cases huri

/-- A handle asks its filesystem for nothing outside of its mount: as long as an entry stays in the
key it is written behind, the handle fails without asking, or it asks for one address, and that
starts with the key and a slash. -/
theorem entry_stays_in_mount {p : Pool ρ} {h : MountHandle ρ} {record : MountRecord}
    (hrecord : p.record? h.record = some record)
    (hkey : Url.parse record.key.text = .ok record.key) {entry : Text}
    (hstays : Url.StaysIn record.key (entryBehind entry)) :
    (∃ e, ∀ (B : Backend σ ρ) s, p.entry B h entry s = (.error e, s)) ∨
      ∃ uri, record.key.text ++ Url.slashFor record.key.text <+: uri.text ∧
        ∀ (B : Backend σ ρ) s,
          p.entry B h entry s = pooledAnswer h.record (B.resource record.fs uri s) := by
  refine (entry_eq_or hrecord entry).imp_right fun ⟨uri, huri, hasks⟩ => ⟨uri, ?_, hasks⟩
  rw [entryLiteral_eq] at huri
  exact Url.text_prefix_of_parse_append hkey huri (stands_entryBehind entry)
    (head?_entryBehind entry) hstays

/-! ### A mounted bundle -/

/-- The root address of a bundle, with a path made of segments. -/
def bundleRoot : Url := ⟨"mem".toList, none, "/bundle!/".toList, none, none⟩

/-- A host without files, and a provider of bundles. -/
def bundleWorld : World where
  host := ⟨.tick 0, [], [], 1, []⟩
  providers := [.scripted ⟨["mem".toList], none, false, [], []⟩]
  fileSystems := []
  forgotten := []

/-- A pool that has mounted the bundle. -/
def bundleMount : Pool ProvidedResource × World :=
  run World.backend [.acquire 0 bundleRoot.text bundleRoot]
    (start {} ⟨[("mem".toList, 0)]⟩, bundleWorld)

/-- The handle on the mounted bundle. -/
def bundleHandle : MountHandle ProvidedResource := ⟨0, .scripted ⟨bundleRoot⟩, .live⟩

/-- An entry of the bundle that stays in it, dots and all. -/
def bundleEntry : Text := "a/.././%2e%2e/é!".toList

/-- What is asked for the entry starts with the root of the bundle. -/
theorem entry_of_bundle_stays :
    bundleMount.1.handle? 0 = some bundleHandle ∧ ∃ record uri,
      bundleMount.1.record? 0 = some record ∧
        record.key.text ++ Url.slashFor record.key.text <+: uri.text ∧
        bundleMount.1.entry World.backend bundleHandle bundleEntry bundleMount.2 =
          pooledAnswer 0 (World.backend.resource record.fs uri bundleMount.2) := by
  have hrecord : bundleMount.1.record? 0 = some ⟨bundleRoot, 0, 1, none, false⟩ := by
    decide +kernel
  have hanswer : (bundleMount.1.entry World.backend bundleHandle bundleEntry
      bundleMount.2).1.toOption.isSome = true := by
    decide +kernel
  have hstays : Url.StaysIn bundleRoot (entryBehind bundleEntry) := by
    refine .inr (.inr ⟨by decide +kernel, fun hkind => ?_⟩)
    cases hkind
  have hheld : bundleMount.1.handle? 0 = some bundleHandle := by decide +kernel
  rcases entry_stays_in_mount (σ := World) (p := bundleMount.1) (h := bundleHandle) hrecord
    (by decide +kernel) hstays with ⟨e, hfails⟩ | ⟨uri, hfront, hasks⟩
  · rw [hfails] at hanswer
    cases hanswer
  · exact ⟨hheld, _, uri, hrecord, hfront, hasks World.backend bundleMount.2⟩

/-- A `..` too many leads out of the bundle: what is asked for is not behind its root. -/
theorem entry_leaves_bundle :
    bundleMount.1.handle? 0 = some bundleHandle ∧
      bundleMount.1.ensureLive bundleHandle = .ok () ∧
      bundleMount.1.keyOf bundleHandle.record = "mem:/bundle!/".toList ∧
      (bundleMount.1.entry World.backend bundleHandle "../x".toList bundleMount.2).1 =
        .ok ⟨0, .scripted ⟨⟨"mem".toList, none, "/x".toList, none, none⟩⟩⟩ ∧
      ¬"mem:/bundle!/".toList <+:
        Url.text ⟨"mem".toList, none, "/x".toList, none, none⟩ := by
  refine ⟨?_, ?_, ?_, ?_, ?_⟩ <;> decide +kernel

end Pool

end ContentMounts
