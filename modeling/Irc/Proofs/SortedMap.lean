import Irc.SortedMap
/-! The entries of a map are exactly what its lookups give, so walking a map loses and repeats
nothing. Membership in a map is said by `contains`, with one equivalence for each operation. -/
namespace Irc

namespace SortedMap

variable {α β γ : Type}

section Basic

variable [LT α] [DecidableEq α]

theorem contains_iff {m : SortedMap α β} {k : α} : m.contains k = true ↔ ∃ v, m.get? k = some v :=
  Option.isSome_iff_exists

theorem contains_of_get? {m : SortedMap α β} {k : α} {v : β} (h : m.get? k = some v) :
    m.contains k = true := contains_iff.mpr ⟨v, h⟩

@[simp] theorem not_contains_empty (k : α) : ¬(empty : SortedMap α β).contains k = true := by
  simp [contains_iff]

@[simp] theorem contains_erase (m : SortedMap α β) (k k' : α) :
    (m.erase k).contains k' = true ↔ k' ≠ k ∧ m.contains k' = true := by
  rw [contains_iff, contains_iff, get?_erase]
  by_cases h : k' = k <;> simp [h]

end Basic

section Order

variable [LT α] [LE α] [DecidableEq α] [Std.LawfulOrderLT α]

/-- No key stands twice, so each entry is the one that its key leads to. -/
theorem lookup_of_mem {l : List (α × β)} (h : l.Pairwise fun a b => a.1 < b.1) {k : α} {v : β}
    (hMem : (k, v) ∈ l) : lookup k l = some v := by
  induction l with
  | nil => cases hMem
  | cons e rest ih =>
      have hRest := List.pairwise_cons.mp h
      rcases List.mem_cons.mp hMem with he | hMem
      · rw [← he, lookup, if_pos rfl]
      · have hNe : k ≠ e.1 := fun he => Std.lt_irrefl (he ▸ hRest.1 _ hMem)
        rw [lookup, if_neg hNe]
        exact ih hRest.2 hMem

/-- The entries are exactly what the lookups give. -/
theorem mem_entries_iff {m : SortedMap α β} {k : α} {v : β} :
    (k, v) ∈ m.entries ↔ m.get? k = some v :=
  ⟨lookup_of_mem m.increasing, mem_of_lookup⟩

theorem mem_keys_iff {m : SortedMap α β} {k : α} : k ∈ m.keys ↔ m.contains k = true := by
  rw [contains_iff, keys, List.mem_map]
  constructor
  · rintro ⟨⟨_, v⟩, hMem, rfl⟩
    exact ⟨v, mem_entries_iff.mp hMem⟩
  · rintro ⟨v, hv⟩
    exact ⟨(k, v), mem_entries_iff.mpr hv, rfl⟩

omit [DecidableEq α] in
theorem nodup_keys (m : SortedMap α β) : m.keys.Nodup := by
  refine List.pairwise_map.mpr (m.increasing.imp fun {a b} hLt hSame => ?_)
  exact Std.lt_irrefl (hSame ▸ hLt)

theorem mem_values_iff {m : SortedMap α β} {v : β} : v ∈ m.values ↔ ∃ k, m.get? k = some v := by
  rw [values, List.mem_map]
  constructor
  · rintro ⟨⟨k, _⟩, hMem, rfl⟩
    exact ⟨k, mem_entries_iff.mp hMem⟩
  · rintro ⟨k, hk⟩
    exact ⟨(k, v), mem_entries_iff.mpr hk, rfl⟩

theorem isEmpty_iff {m : SortedMap α β} : m.isEmpty = true ↔ ∀ k, ¬m.contains k = true := by
  rw [isEmpty, List.isEmpty_iff]
  constructor
  · intro h k hk
    have hMem := mem_keys_iff.mpr hk
    rw [keys, h] at hMem
    cases hMem
  · intro h
    refine List.eq_nil_iff_forall_not_mem.mpr fun e he => h e.1 ?_
    exact mem_keys_iff.mp (List.mem_map_of_mem he)

section Insertion

variable [DecidableLT α] [Std.IsLinearOrder α]

@[simp] theorem contains_insert (m : SortedMap α β) (k k' : α) (v : β) :
    (m.insert k v).contains k' = true ↔ k' = k ∨ m.contains k' = true := by
  rw [contains_iff, contains_iff, get?_insert]
  by_cases h : k' = k <;> simp [h]

@[simp] theorem contains_insertIfNew (m : SortedMap α β) (k k' : α) (v : β) :
    (m.insertIfNew k v).contains k' = true ↔ k' = k ∨ m.contains k' = true := by
  rw [contains_iff, contains_iff, get?_insertIfNew]
  by_cases h : k' = k <;> simp [h]

@[simp] theorem contains_modify (m : SortedMap α β) (k k' : α) (f : β → β) :
    (m.modify k f).contains k' = true ↔ m.contains k' = true := by
  rw [contains_iff, contains_iff, get?_modify]
  by_cases h : k' = k
  · subst h
    cases m.get? k' <;> simp
  · simp [h]

/-- A change that changes nothing where the key is leaves the whole map as it was. -/
theorem modify_eq_self {m : SortedMap α β} {k : α} {f : β → β} (h : ∀ v ∈ m.get? k, f v = v) :
    m.modify k f = m := by
  refine ext_get? fun k' => ?_
  rw [get?_modify]
  by_cases hKey : k' = k
  · rw [if_pos hKey, hKey]
    cases hOld : m.get? k with
    | none => rfl
    | some v => rw [Option.map_some, h v hOld]
  · rw [if_neg hKey]

omit [LE α] [Std.LawfulOrderLT α] [DecidableLT α] [Std.IsLinearOrder α] in
/-- Erasing any number of keys leaves what is under the others. -/
theorem get?_foldl_erase (l : List α) (m : SortedMap α β) (k : α) :
    (l.foldl erase m).get? k = if k ∈ l then none else m.get? k := by
  induction l generalizing m with
  | nil => simp
  | cons k' rest ih =>
      rw [List.foldl_cons, ih, get?_erase]
      by_cases hKey : k = k' <;> simp [hKey]

omit [DecidableLT α] in
/-- Nothing is left under any of a map's own keys. -/
theorem foldl_erase_keys (m : SortedMap α β) : m.keys.foldl erase m = empty := by
  refine ext_get? fun k => ?_
  rw [get?_foldl_erase, get?_empty]
  cases hKey : m.get? k with
  | none => rw [ite_self]
  | some v => rw [if_pos (mem_keys_iff.mpr (contains_of_get? hKey))]

omit [DecidableLT α] in
/-- There is nothing to erase under a key that is not there. -/
theorem erase_eq_self {m : SortedMap α β} {k : α} (h : ¬m.contains k = true) : m.erase k = m := by
  refine ext_get? fun k' => ?_
  rw [get?_erase]
  by_cases hKey : k' = k
  · rw [if_pos hKey, hKey]
    cases hOld : m.get? k with
    | none => rfl
    | some v => exact absurd (contains_of_get? hOld) h
  · rw [if_neg hKey]

omit [LE α] [Std.LawfulOrderLT α] [Std.IsLinearOrder α] in
/-- Placing a value that replaces none of those counted adds the value itself. -/
theorem countP_place (p : β → Bool) {k : α} (v : β) {l : List (α × β)}
    (h : ∀ old ∈ lookup k l, p old = false) :
    (place k v l).countP (p ·.2) = l.countP (p ·.2) + if p v then 1 else 0 := by
  induction l with
  | nil => simp [place, List.countP_cons]
  | cons e rest ih =>
      obtain ⟨k', v'⟩ := e
      by_cases hKey : k = k'
      · have hOld : p v' = false := h v' (by simp [lookup, hKey])
        simp [place, hKey, List.countP_cons, hOld]
      by_cases hLess : k < k'
      · rw [place, if_neg hKey, if_pos hLess, List.countP_cons]
      · have hRest := ih (by simpa [lookup, hKey] using h)
        rw [place, if_neg hKey, if_neg hLess, List.countP_cons, List.countP_cons, hRest]
        exact Nat.add_right_comm _ _ _

/-- A value that takes the place of no other one of its kind adds to these what it is itself. -/
theorem countP_insert (p : β → Bool) {m : SortedMap α β} {k : α} (v : β)
    (h : ∀ old ∈ m.get? k, p old = false) :
    (m.insert k v).values.countP p = m.values.countP p + if p v then 1 else 0 := by
  rw [values, values, List.countP_map, List.countP_map]
  exact countP_place p v h

/-- Entries that are added do not replace what is there, and of entries with the same key the first
counts. -/
theorem get?_foldl_insertIfNew (l : List (α × β)) (m : SortedMap α β) (k : α) :
    (l.foldl (fun acc e => acc.insertIfNew e.1 e.2) m).get? k = (m.get? k).or (lookup k l) := by
  induction l generalizing m with
  | nil => simp [lookup]
  | cons e rest ih =>
      rw [List.foldl_cons, ih, get?_insertIfNew, lookup]
      by_cases h : k = e.1
      · rw [if_pos h, if_pos h, h]
        cases m.get? e.1 <;> rfl
      · rw [if_neg h, if_neg h]

theorem get?_union (m other : SortedMap α β) (k : α) :
    (m.union other).get? k = (m.get? k).or (other.get? k) :=
  get?_foldl_insertIfNew other.entries m k

@[simp] theorem contains_union (m other : SortedMap α β) (k : α) :
    (m.union other).contains k = true ↔ m.contains k = true ∨ other.contains k = true := by
  rw [contains, get?_union, Option.isSome_or, Bool.or_eq_true]
  rfl

end Insertion

end Order

end SortedMap

namespace SortedSet

variable {α : Type} [LT α] [LE α] [DecidableEq α] [DecidableLT α] [Std.IsLinearOrder α]
  [Std.LawfulOrderLT α]

@[simp] theorem contains_add (s : SortedSet α) (a b : α) :
    (s.add a).contains b = true ↔ b = a ∨ s.contains b = true :=
  SortedMap.contains_insert s a b ()

theorem contains_foldl_add (l : List α) (s : SortedSet α) (a : α) :
    (l.foldl add s).contains a = true ↔ a ∈ l ∨ s.contains a = true := by
  induction l generalizing s with
  | nil => simp
  | cons b rest ih =>
      rw [List.foldl_cons, ih, contains_add, List.mem_cons]
      exact or_left_comm.trans or_assoc.symm

@[simp] theorem contains_ofList (l : List α) (a : α) :
    (ofList l).contains a = true ↔ a ∈ l := by
  rw [ofList, contains_foldl_add]
  simp

end SortedSet

end Irc
