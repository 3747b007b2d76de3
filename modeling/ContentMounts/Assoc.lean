/-!
# Finite maps

Finite maps as lists of pairs. A key is bound by the first pair that holds it; binding a key anew
keeps its place in the list.
-/

namespace ContentMounts

namespace Assoc

variable {α β : Type} [BEq α]

/-- The map with a key bound to a value. -/
def put (key : α) (value : β) : List (α × β) → List (α × β)
  | [] => [(key, value)]
  | (k, v) :: rest => if k == key then (k, value) :: rest else (k, v) :: put key value rest

/-- The map without a key. -/
def erase (key : α) (m : List (α × β)) : List (α × β) := m.filter fun (k, _) => !(k == key)

theorem lookup_put_self [LawfulBEq α] (key : α) (value : β) (m : List (α × β)) :
    (put key value m).lookup key = some value := by
  induction m with
  | nil => simp [put]
  | cons p rest ih =>
    obtain ⟨k, v⟩ := p
    by_cases h : k = key
    · simp [put, h]
    · have hk : (key == k) = false := by simpa using fun e => h e.symm
      simp [put, h, List.lookup_cons, hk, ih]

theorem lookup_put_ne [LawfulBEq α] {key other : α} (h : other ≠ key) (value : β)
    (m : List (α × β)) : (put key value m).lookup other = m.lookup other := by
  have ho : (other == key) = false := by simpa using h
  induction m with
  | nil => simp [put, List.lookup_cons, ho]
  | cons p rest ih =>
    obtain ⟨k, v⟩ := p
    by_cases hk : k = key
    · subst hk
      simp [put, List.lookup_cons, ho]
    · simp [put, hk, List.lookup_cons, ih]

theorem lookup_erase_self [LawfulBEq α] (key : α) (m : List (α × β)) :
    (erase key m).lookup key = none := by
  induction m with
  | nil => rfl
  | cons p rest ih =>
    obtain ⟨k, v⟩ := p
    by_cases h : k = key
    · simpa [erase, h] using ih
    · have hk : (key == k) = false := by simpa using fun e => h e.symm
      simpa [erase, h, List.lookup_cons, hk] using ih

theorem lookup_erase_ne [LawfulBEq α] {key other : α} (h : other ≠ key) (m : List (α × β)) :
    (erase key m).lookup other = m.lookup other := by
  have ho : (other == key) = false := by simpa using h
  induction m with
  | nil => rfl
  | cons p rest ih =>
    obtain ⟨k, v⟩ := p
    by_cases hk : k = key
    · subst hk
      simpa [erase, List.lookup_cons, ho] using ih
    · cases hok : other == k with
      | true => simp [erase, hk, List.lookup_cons, hok]
      | false => simpa [erase, hk, List.lookup_cons, hok] using ih

/-! ### Pairs -/

theorem mem_of_lookup [LawfulBEq α] {key : α} {value : β} {m : List (α × β)}
    (h : m.lookup key = some value) : (key, value) ∈ m := by
  obtain ⟨before, behind, rfl, -⟩ := List.lookup_eq_some_iff.mp h
  simp

theorem eq_or_mem_of_mem_put [LawfulBEq α] {key : α} {value : β} {m : List (α × β)}
    {pair : α × β} (h : pair ∈ put key value m) : pair = (key, value) ∨ pair ∈ m := by
  induction m with
  | nil => exact .inl (List.mem_singleton.mp h)
  | cons p rest ih =>
    obtain ⟨k, v⟩ := p
    rw [put] at h
    split at h
    · next hk =>
      rw [eq_of_beq hk] at h
      exact (List.mem_cons.mp h).imp_right (List.mem_cons_of_mem _)
    · rcases List.mem_cons.mp h with rfl | hrest
      · exact .inr List.mem_cons_self
      · exact (ih hrest).imp_right (List.mem_cons_of_mem _)

/-! ### Keys -/

/-- The keys of a map in their order. -/
def keys (m : List (α × β)) : List α := m.map (·.1)

omit [BEq α] in
@[simp] theorem keys_nil : keys ([] : List (α × β)) = [] := rfl

omit [BEq α] in
@[simp] theorem keys_cons (p : α × β) (m : List (α × β)) : keys (p :: m) = p.1 :: keys m := rfl

/-- Where no key is bound twice, the pairs of a map are what a look-up finds. -/
theorem lookup_eq_some_iff_mem [LawfulBEq α] {key : α} {value : β} {m : List (α × β)}
    (h : (keys m).Nodup) : m.lookup key = some value ↔ (key, value) ∈ m := by
  induction m with
  | nil => simp
  | cons p rest ih =>
    obtain ⟨k, v⟩ := p
    rw [keys_cons, List.nodup_cons] at h
    by_cases hk : key = k
    · subst hk
      have hnot : (key, value) ∉ rest := fun hm => h.1 (List.mem_map_of_mem (f := (·.1)) hm)
      simp [hnot, eq_comm]
    · have hb : (key == k) = false := by simpa using hk
      simp [List.lookup_cons, hb, hk, ih h.2]

theorem keys_put [LawfulBEq α] [DecidableEq α] (key : α) (value : β) (m : List (α × β)) :
    keys (put key value m) = if key ∈ keys m then keys m else keys m ++ [key] := by
  induction m with
  | nil => simp [put, keys]
  | cons p rest ih =>
    obtain ⟨k, v⟩ := p
    by_cases h : k = key
    · subst h
      simp [put]
    · have hk : ¬ key = k := fun e => h e.symm
      simp only [put, beq_iff_eq, h, if_false, keys_cons, ih, List.mem_cons, hk, false_or]
      split <;> simp

theorem nodup_keys_put [LawfulBEq α] {key : α} {value : β} {m : List (α × β)}
    (h : (keys m).Nodup) : (keys (put key value m)).Nodup := by
  classical
  rw [keys_put]
  split
  · exact h
  · rename_i hk
    rw [List.nodup_append]
    exact ⟨h, by simp, fun a ha b hb => by rintro rfl; simp_all⟩

theorem nodup_keys_erase {key : α} {m : List (α × β)} (h : (keys m).Nodup) :
    (keys (erase key m)).Nodup :=
  h.sublist (List.filter_sublist.map _)

end Assoc

end ContentMounts
