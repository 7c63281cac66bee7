/-!
Finite maps kept as lists in strictly increasing key order.

The order belongs to the type: walking a map visits its keys from least to greatest, and
two maps that answer every lookup alike are equal (`SortedMap.ext_get?`). Insertion,
removal and change at a key each have one lookup equation.
-/
namespace Irc

/-- A finite map from `α` to `β`; `entries` lists each key once, in increasing order. -/
structure SortedMap (α : Type) (β : Type) [LT α] where
  entries : List (α × β)
  increasing : entries.Pairwise fun a b => a.1 < b.1

namespace SortedMap

variable {α β γ : Type}

section Lookup

variable [DecidableEq α]

def lookup (k : α) : List (α × β) → Option β
  | [] => none
  | (k', v) :: rest => if k = k' then some v else lookup k rest

def without (k : α) (l : List (α × β)) : List (α × β) :=
  l.filter fun e => e.1 ≠ k

theorem lookup_without_self (k : α) (l : List (α × β)) : lookup k (without k l) = none := by
  induction l with
  | nil => rfl
  | cons e rest ih =>
    obtain ⟨k', v'⟩ := e
    by_cases h : k' = k
    · simpa [without, h] using ih
    · have hk : k ≠ k' := fun he => h he.symm
      simpa [without, h, lookup, hk] using ih

theorem lookup_without_of_ne {k k' : α} (h : k' ≠ k) (l : List (α × β)) :
    lookup k' (without k l) = lookup k' l := by
  induction l with
  | nil => rfl
  | cons e rest ih =>
    obtain ⟨k'', v''⟩ := e
    by_cases he : k'' = k
    · subst he
      simpa [without, lookup, h] using ih
    · have ih' : lookup k' (List.filter (fun e => !decide (e.1 = k)) rest) = lookup k' rest := by
        simpa [without] using ih
      simp [without, he, lookup, ih']

theorem lookup_mapValues (f : β → γ) (k : α) (l : List (α × β)) :
    lookup k (l.map fun e => (e.1, f e.2)) = (lookup k l).map f := by
  induction l with
  | nil => rfl
  | cons e rest ih => by_cases h : k = e.1 <;> simp [lookup, h, ih]

theorem mem_of_lookup {k : α} {v : β} {l : List (α × β)} (h : lookup k l = some v) :
    (k, v) ∈ l := by
  induction l with
  | nil => simp [lookup] at h
  | cons e rest ih =>
    obtain ⟨k', v'⟩ := e
    simp only [lookup] at h
    split at h
    · next he => simp_all
    · exact List.mem_cons_of_mem _ (ih h)

end Lookup

section Place

variable [LT α] [DecidableEq α] [DecidableLT α]

/-- Puts a value under a key, in place of an earlier value or at its place in the order. -/
def place (k : α) (v : β) : List (α × β) → List (α × β)
  | [] => [(k, v)]
  | (k', v') :: rest =>
    if k = k' then (k, v) :: rest
    else if k < k' then (k, v) :: (k', v') :: rest
    else (k', v') :: place k v rest

theorem lookup_place_self (k : α) (v : β) (l : List (α × β)) :
    lookup k (place k v l) = some v := by
  induction l with
  | nil => simp [place, lookup]
  | cons e rest ih =>
    obtain ⟨k', v'⟩ := e
    simp only [place]
    split
    · simp [lookup]
    · next hne =>
      split
      · simp [lookup]
      · simp [lookup, hne, ih]

theorem lookup_place_of_ne {k k' : α} (h : k' ≠ k) (v : β) (l : List (α × β)) :
    lookup k' (place k v l) = lookup k' l := by
  induction l with
  | nil => simp [place, lookup, h]
  | cons e rest ih =>
    obtain ⟨k'', v''⟩ := e
    simp only [place]
    split
    · next he => subst he; simp [lookup, h]
    · split
      · simp [lookup, h]
      · simp only [lookup, ih]

theorem mem_of_mem_place {k : α} {v : β} {e : α × β} {l : List (α × β)}
    (h : e ∈ place k v l) : e = (k, v) ∨ e ∈ l := by
  induction l with
  | nil => simpa [place] using h
  | cons e' rest ih =>
    obtain ⟨k', v'⟩ := e'
    simp only [place] at h
    split at h
    · rcases List.mem_cons.mp h with h | h
      · exact .inl h
      · exact .inr (List.mem_cons_of_mem _ h)
    · split at h
      · rcases List.mem_cons.mp h with h | h
        · exact .inl h
        · exact .inr h
      · rcases List.mem_cons.mp h with h | h
        · exact .inr (h ▸ List.mem_cons_self ..)
        · rcases ih h with h | h
          · exact .inl h
          · exact .inr (List.mem_cons_of_mem _ h)

end Place

section Order

variable [LT α] [LE α] [DecidableEq α] [Std.IsLinearOrder α] [Std.LawfulOrderLT α]

theorem increasing_place [DecidableLT α] (k : α) (v : β) {l : List (α × β)}
    (h : l.Pairwise fun a b => a.1 < b.1) :
    (place k v l).Pairwise fun a b => a.1 < b.1 := by
  induction l with
  | nil => simp [place]
  | cons e rest ih =>
    obtain ⟨k', v'⟩ := e
    have hrest := List.pairwise_cons.mp h
    simp only [place]
    split
    · next he => subst he; exact List.pairwise_cons.mpr ⟨hrest.1, hrest.2⟩
    · next hne =>
      split
      · next hlt =>
        refine List.pairwise_cons.mpr ⟨fun e' he' => ?_, h⟩
        rcases List.mem_cons.mp he' with he' | he'
        · exact he' ▸ hlt
        · exact Std.lt_trans hlt (hrest.1 e' he')
      · next hlt =>
        have hgt : k' < k := by
          rcases Std.lt_trichotomy k k' with h1 | h1 | h1
          · exact absurd h1 hlt
          · exact absurd h1 hne
          · exact h1
        refine List.pairwise_cons.mpr ⟨fun e' he' => ?_, ih hrest.2⟩
        rcases mem_of_mem_place he' with he' | he'
        · exact he' ▸ hgt
        · exact hrest.1 e' he'

omit [Std.IsLinearOrder α] in
theorem lookup_eq_none_of_lt {k : α} {l : List (α × β)} (h : ∀ e ∈ l, k < e.1) :
    lookup k l = none := by
  cases hl : lookup k l with
  | none => rfl
  | some v => exact absurd (h _ (mem_of_lookup hl)) (Std.lt_irrefl (a := k))

theorem eq_of_lookup_eq {l r : List (α × β)} (hl : l.Pairwise fun a b => a.1 < b.1)
    (hr : r.Pairwise fun a b => a.1 < b.1) (h : ∀ k, lookup k l = lookup k r) : l = r := by
  induction l generalizing r with
  | nil =>
    cases r with
    | nil => rfl
    | cons e rest => have := h e.1; simp [lookup] at this
  | cons e rest ih =>
    obtain ⟨k, v⟩ := e
    cases r with
    | nil => have := h k; simp [lookup] at this
    | cons e' rest' =>
      obtain ⟨k', v'⟩ := e'
      have hl' := List.pairwise_cons.mp hl
      have hr' := List.pairwise_cons.mp hr
      rcases Std.lt_trichotomy k k' with hlt | heq | hgt
      · have hk := h k
        have hnone : lookup k ((k', v') :: rest') = none :=
          lookup_eq_none_of_lt fun e he => by
            rcases List.mem_cons.mp he with he | he
            · exact he ▸ hlt
            · exact Std.lt_trans hlt (hr'.1 e he)
        rw [hnone] at hk
        simp [lookup] at hk
      · subst heq
        have hv := h k
        simp only [lookup, if_true, Option.some.injEq] at hv
        subst hv
        congr 1
        refine ih hl'.2 hr'.2 fun q => ?_
        by_cases hq : q = k
        · subst hq
          rw [lookup_eq_none_of_lt hl'.1, lookup_eq_none_of_lt hr'.1]
        · have := h q
          simpa [lookup, hq] using this
      · have hk := h k'
        have hnone : lookup k' ((k, v) :: rest) = none :=
          lookup_eq_none_of_lt fun e he => by
            rcases List.mem_cons.mp he with he | he
            · exact he ▸ hgt
            · exact Std.lt_trans hgt (hl'.1 e he)
        rw [hnone] at hk
        simp [lookup] at hk

end Order

section Basic

variable [LT α]

def empty : SortedMap α β := ⟨[], List.Pairwise.nil⟩

instance : EmptyCollection (SortedMap α β) := ⟨empty⟩

instance : Inhabited (SortedMap α β) := ⟨empty⟩

def keys (m : SortedMap α β) : List α := m.entries.map Prod.fst

def values (m : SortedMap α β) : List β := m.entries.map Prod.snd

def size (m : SortedMap α β) : Nat := m.entries.length

def isEmpty (m : SortedMap α β) : Bool := m.entries.isEmpty

def mapValues (f : β → γ) (m : SortedMap α β) : SortedMap α γ :=
  ⟨m.entries.map fun e => (e.1, f e.2), List.pairwise_map.mpr m.increasing⟩

theorem eq_of_entries_eq {m n : SortedMap α β} (h : m.entries = n.entries) : m = n := by
  cases m; cases n; cases h; rfl

instance [DecidableEq α] [DecidableEq β] : DecidableEq (SortedMap α β) := fun m n =>
  if h : m.entries = n.entries then isTrue (eq_of_entries_eq h)
  else isFalse fun he => h (he ▸ rfl)

variable [DecidableEq α]

def get? (m : SortedMap α β) (k : α) : Option β := lookup k m.entries

def contains (m : SortedMap α β) (k : α) : Bool := (m.get? k).isSome

def erase (m : SortedMap α β) (k : α) : SortedMap α β :=
  ⟨without k m.entries, m.increasing.filter _⟩

@[simp] theorem get?_empty (k : α) : (empty : SortedMap α β).get? k = none := rfl

@[simp] theorem get?_erase_self (m : SortedMap α β) (k : α) : (m.erase k).get? k = none :=
  lookup_without_self k m.entries

theorem get?_erase_of_ne (m : SortedMap α β) {k k' : α} (h : k' ≠ k) :
    (m.erase k).get? k' = m.get? k' := lookup_without_of_ne h m.entries

theorem get?_erase (m : SortedMap α β) (k k' : α) :
    (m.erase k).get? k' = if k' = k then none else m.get? k' := by
  by_cases h : k' = k
  · subst h; simp
  · simp [h, get?_erase_of_ne m h]

@[simp] theorem get?_mapValues (f : β → γ) (m : SortedMap α β) (k : α) :
    (m.mapValues f).get? k = (m.get? k).map f := lookup_mapValues f k m.entries

end Basic

section Insertion

variable [LT α] [LE α] [DecidableEq α] [DecidableLT α] [Std.IsLinearOrder α]
  [Std.LawfulOrderLT α]

/-- Puts a value under a key, in place of an earlier one. -/
def insert (m : SortedMap α β) (k : α) (v : β) : SortedMap α β :=
  ⟨place k v m.entries, increasing_place k v m.increasing⟩

/-- Puts a value under a key that has none yet. -/
def insertIfNew (m : SortedMap α β) (k : α) (v : β) : SortedMap α β :=
  if m.contains k then m else m.insert k v

def modify (m : SortedMap α β) (k : α) (f : β → β) : SortedMap α β :=
  match m.get? k with
  | some v => m.insert k (f v)
  | none => m

/-- All entries of `m`, and those of `other` under keys that `m` lacks. -/
def union (m other : SortedMap α β) : SortedMap α β :=
  other.entries.foldl (fun acc e => acc.insertIfNew e.1 e.2) m

@[simp] theorem get?_insert_self (m : SortedMap α β) (k : α) (v : β) :
    (m.insert k v).get? k = some v := lookup_place_self k v m.entries

theorem get?_insert_of_ne (m : SortedMap α β) {k k' : α} (h : k' ≠ k) (v : β) :
    (m.insert k v).get? k' = m.get? k' := lookup_place_of_ne h v m.entries

theorem get?_insert (m : SortedMap α β) (k k' : α) (v : β) :
    (m.insert k v).get? k' = if k' = k then some v else m.get? k' := by
  by_cases h : k' = k
  · subst h; simp
  · simp [h, get?_insert_of_ne m h]

theorem get?_insertIfNew (m : SortedMap α β) (k k' : α) (v : β) :
    (m.insertIfNew k v).get? k' = if k' = k then some ((m.get? k).getD v) else m.get? k' := by
  unfold insertIfNew contains
  cases hk : m.get? k with
  | none => simp [get?_insert]
  | some w =>
    by_cases h : k' = k
    · subst h; simp [hk]
    · simp [h]

theorem get?_modify (m : SortedMap α β) (k k' : α) (f : β → β) :
    (m.modify k f).get? k' = if k' = k then (m.get? k).map f else m.get? k' := by
  unfold modify
  cases hk : m.get? k with
  | none => by_cases h : k' = k <;> simp [h, hk]
  | some v => simp [get?_insert]

omit [DecidableLT α] in
/-- Two maps with the same lookups are equal. -/
theorem ext_get? {m n : SortedMap α β} (h : ∀ k, m.get? k = n.get? k) : m = n :=
  eq_of_entries_eq (eq_of_lookup_eq m.increasing n.increasing h)

end Insertion

end SortedMap

/-- A finite set, walked in increasing order: `keys` lists the members. -/
abbrev SortedSet (α : Type) [LT α] := SortedMap α Unit

namespace SortedSet

variable {α : Type} [LT α] [LE α] [DecidableEq α] [DecidableLT α] [Std.IsLinearOrder α]
  [Std.LawfulOrderLT α]

def add (s : SortedSet α) (a : α) : SortedSet α := SortedMap.insert s a ()

def ofList (l : List α) : SortedSet α := l.foldl add SortedMap.empty

end SortedSet

end Irc
