import Irc.Proofs.SortedMap
/-! Records that are put one after another under their keys, where each is merged into what the
earlier ones under its key have become. What stands under a key in the end is made of the records
that have this key, in their order. -/
namespace Irc

namespace SortedMap

variable {α β γ σ : Type}

/-- Merges records into one, which is the first of them if there is none before. -/
def mergeInto (merge : β → β → β) (first? : Option β) (l : List β) : Option β :=
  l.foldl (fun first? b => some ((first?.map (merge · b)).getD b)) first?

@[simp] theorem mergeInto_some (merge : β → β → β) (first : β) (l : List β) :
    mergeInto merge (some first) l = some (l.foldl merge first) := by
  induction l generalizing first with
  | nil => rfl
  | cons b rest ih => exact ih (merge first b)

@[simp] theorem mergeInto_none_cons (merge : β → β → β) (first : β) (rest : List β) :
    mergeInto merge none (first :: rest) = some (rest.foldl merge first) :=
  mergeInto_some merge first rest

theorem mergeInto_append (merge : β → β → β) (first? : Option β) (l later : List β) :
    mergeInto merge first? (l ++ later) = mergeInto merge (mergeInto merge first? l) later :=
  List.foldl_append

theorem mergeInto_none_toList (merge : β → β → β) (first? : Option β) :
    mergeInto merge none first?.toList = first? := by
  cases first? <;> rfl

/-- If each record is merged into what is found under its own key and no other, then so are those
with a key into what was found there. -/
theorem find_foldl_eq_mergeInto [DecidableEq α] (find : σ → Option β) {step : σ → β → σ}
    {keyOf : β → α} {merge : β → β → β} {key : α}
    (hStep : ∀ s b, find (step s b) =
      if key = keyOf b then some (((find s).map (merge · b)).getD b) else find s)
    (l : List β) (s : σ) :
    find (l.foldl step s) = mergeInto merge (find s) (l.filter (keyOf · = key)) := by
  induction l generalizing s with
  | nil => rfl
  | cons b rest ih =>
      rw [List.foldl_cons, ih, hStep]
      by_cases h : key = keyOf b
      · rw [if_pos h, List.filter_cons_of_pos (by simp [h])]
        rfl
      · rw [if_neg h, List.filter_cons_of_neg (by simp [Ne.symm h])]

/-- What is known already stays. -/
theorem foldl_fill_of_known {unset : β → Prop} [DecidablePred unset] {b : β} (h : ¬unset b)
    (l : List β) : l.foldl (fun old new => if unset old then new else old) b = b := by
  induction l with
  | nil => rfl
  | cons c rest ih => rw [List.foldl_cons, if_neg h, ih]

/-- If a later value counts only as long as none is known, the first known one stays. -/
theorem foldl_fill (unset : β → Prop) [DecidablePred unset] (b : β) (l : List β) :
    l.foldl (fun old new => if unset old then new else old) b =
      ((b :: l).find? (¬unset ·)).getD (l.getLastD b) := by
  induction l generalizing b with
  | nil => by_cases h : unset b <;> simp [h]
  | cons c rest ih =>
      by_cases h : unset b
      · rw [List.foldl_cons, if_pos h, ih, List.find?_cons_of_neg (a := b) (by simpa using h),
          List.getLastD_cons]
      · rw [foldl_fill_of_known h, List.find?_cons_of_pos (by simpa using h)]
        rfl

section Order

variable [LT α] [LE α] [DecidableEq α] [Std.LawfulOrderLT α]

/-- In a map in order, a key stands at most once. -/
theorem filter_fst_eq {l : List (α × β)} (h : l.Pairwise fun a b => a.1 < b.1) (k : α) :
    l.filter (·.1 = k) = (lookup k l).toList.map fun v => (k, v) := by
  induction l with
  | nil => rfl
  | cons e rest ih =>
      obtain ⟨hLater, hRest⟩ := List.pairwise_cons.mp h
      by_cases hKey : k = e.1
      · have hNone : rest.filter (·.1 = k) = [] := by
          refine List.filter_eq_nil_iff.mpr fun e' he' hSame => ?_
          have hLess := hLater e' he'
          rw [of_decide_eq_true hSame, ← hKey] at hLess
          exact Std.lt_irrefl hLess
        rw [List.filter_cons_of_pos (by simp [hKey]), hNone, lookup, if_pos hKey, hKey]
        rfl
      · rw [List.filter_cons_of_neg (by simp [Ne.symm hKey]), ih hRest, lookup, if_neg hKey]

theorem filter_entries_fst (m : SortedMap α β) (k : α) :
    m.entries.filter (·.1 = k) = (m.get? k).toList.map fun v => (k, v) :=
  filter_fst_eq m.increasing k

/-- If the records tell their keys, then the one with a key is the one under it. -/
theorem filter_values {m : SortedMap α β} {keyOf : β → α}
    (hKey : ∀ {k v}, m.get? k = some v → keyOf v = k) (k : α) :
    m.values.filter (keyOf · = k) = (m.get? k).toList := by
  have hEntries : m.entries.filter (fun e => keyOf e.2 = k) = m.entries.filter (·.1 = k) := by
    refine List.filter_congr fun e he => ?_
    rw [hKey (mem_entries_iff.mp he)]
  rw [values, List.filter_map, Function.comp_def, hEntries, filter_entries_fst, List.map_map]
  exact List.map_id _

variable [DecidableLT α] [Std.IsLinearOrder α]

/-- Of several maps the first one that has the key decides. -/
theorem get?_foldl_union (f : γ → SortedMap α β) (l : List γ) (m : SortedMap α β) (k : α) :
    (l.foldl (fun acc x => acc.union (f x)) m).get? k =
      (m.get? k).or (l.findSome? fun x => (f x).get? k) := by
  induction l generalizing m with
  | nil => simp
  | cons x rest ih =>
      rw [List.foldl_cons, ih, get?_union, Option.or_assoc, List.findSome?_cons]
      cases (f x).get? k <;> rfl

/-- A key is in the union of maps exactly if one of them has it. -/
theorem contains_foldl_union (f : γ → SortedMap α β) (l : List γ) (m : SortedMap α β) (k : α) :
    (l.foldl (fun acc x => acc.union (f x)) m).contains k = true ↔
      m.contains k = true ∨ ∃ x ∈ l, (f x).contains k = true := by
  induction l generalizing m with
  | nil => simp
  | cons x rest ih =>
      rw [List.foldl_cons, ih, contains_union, or_assoc]
      simp

end Order

end SortedMap

end Irc
