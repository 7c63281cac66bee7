import Irc.Proofs.Network.Roster
import Mathlib.Data.List.Induction
/-! The index of a roster under another mapping. Of the users whose nicknames come to fold alike
the index has the oldest, and it answers each of the others together with that one, in the order
of their identities. -/
namespace Irc.Roster

/-- The first of the records, in the order of identities, whose nickname folds to the key. -/
def FirstOf (m : CaseMapping) (l : List Client) (key : String) (a : ClientId) : Prop :=
  (∃ c ∈ l, c.id = a ∧ m.fold c.nick = key) ∧ ∀ e ∈ l, m.fold e.nick = key → a ≤ e.id

/-- There is one first user for a nickname. -/
theorem FirstOf.unique {m : CaseMapping} {l : List Client} {key : String} {a b : ClientId}
    (h : FirstOf m l key a) (h' : FirstOf m l key b) : a = b := by
  obtain ⟨⟨c, hc, rfl, hKey⟩, hLeast⟩ := h
  obtain ⟨⟨d, hd, rfl, hKey'⟩, hLeast'⟩ := h'
  exact Nat.le_antisymm (hLeast d hd hKey') (hLeast' c hc hKey)

def indexOne (m : CaseMapping) (acc : SortedMap String ClientId × List (ClientId × ClientId))
    (c : Client) : SortedMap String ClientId × List (ClientId × ClientId) :=
  match acc.1.get? (m.fold c.nick) with
  | some kept => (acc.1, acc.2 ++ [(kept, c.id)])
  | none => (acc.1.insert (m.fold c.nick) c.id, acc.2)

theorem indexUnder_append (m : CaseMapping) (l : List Client) (c : Client) :
    indexUnder m (l ++ [c]) = indexOne m (indexUnder m l) c := by
  unfold indexUnder
  rw [List.foldl_append]
  rfl

/-- What an index and a list of pairs say about the records that they were made from. -/
structure Indexes (m : CaseMapping) (l : List Client)
    (acc : SortedMap String ClientId × List (ClientId × ClientId)) : Prop where
  index : ∀ key a, acc.1.get? key = some a ↔ FirstOf m l key a
  complete : ∀ c ∈ l, ∃ a, acc.1.get? (m.fold c.nick) = some a
  pairs : ∀ a d, (a, d) ∈ acc.2 ↔ ∃ c ∈ l, c.id = d ∧ FirstOf m l (m.fold c.nick) a ∧ a ≠ d
  order : acc.2.Pairwise fun p p' => p.2 < p'.2

theorem indexes_nil (m : CaseMapping) : Indexes m [] (SortedMap.empty, []) where
  index key a := by
    constructor
    · intro h
      cases h
    · rintro ⟨⟨c, hc, _⟩, _⟩
      cases hc
  complete c hc := by cases hc
  pairs a d := by simp
  order := List.Pairwise.nil

/-- A further record changes who is first only under its own key, and only if there was no one. -/
theorem firstOf_append {m : CaseMapping} {l : List Client} {c : Client}
    (hLast : ∀ e ∈ l, e.id < c.id) (key : String) (a : ClientId) :
    FirstOf m (l ++ [c]) key a ↔
      FirstOf m l key a ∨ (a = c.id ∧ key = m.fold c.nick ∧ ∀ e ∈ l, m.fold e.nick ≠ key) := by
  constructor
  · rintro ⟨⟨d, hd, rfl, hKey⟩, hLeast⟩
    rcases List.mem_append.mp hd with hd | hd
    · exact Or.inl ⟨⟨d, hd, rfl, hKey⟩, fun e he => hLeast e (List.mem_append_left _ he)⟩
    · rw [List.mem_singleton.mp hd] at hKey hLeast ⊢
      refine Or.inr ⟨rfl, hKey.symm, fun e he hSame => ?_⟩
      have hLe := hLeast e (List.mem_append_left _ he) hSame
      exact absurd (hLast e he) (Nat.not_lt.mpr hLe)
  · rintro (⟨⟨d, hd, rfl, hKey⟩, hLeast⟩ | ⟨rfl, rfl, hNone⟩)
    · refine ⟨⟨d, List.mem_append_left _ hd, rfl, hKey⟩, fun e he hSame => ?_⟩
      rcases List.mem_append.mp he with he | he
      · exact hLeast e he hSame
      · rw [List.mem_singleton.mp he]
        exact Nat.le_of_lt (hLast d hd)
    · refine ⟨⟨c, List.mem_append_right _ (List.mem_singleton_self c), rfl, rfl⟩,
        fun e he hSame => ?_⟩
      rcases List.mem_append.mp he with he | he
      · exact absurd hSame (hNone e he)
      · exact Nat.le_of_eq (congrArg Client.id (List.mem_singleton.mp he).symm)

section Step

variable {m : CaseMapping} {l : List Client} {c : Client}
  {acc : SortedMap String ClientId × List (ClientId × ClientId)}

theorem FirstOf.lt {key : String} {a : ClientId} (h : FirstOf m l key a)
    (hLast : ∀ e ∈ l, e.id < c.id) : a < c.id := by
  obtain ⟨⟨d, hd, rfl, _⟩, _⟩ := h
  exact hLast d hd

/-- A record whose key is taken is paired with the one that has it. -/
theorem Indexes.pair (h : Indexes m l acc) (hLast : ∀ e ∈ l, e.id < c.id) {kept : ClientId}
    (hKept : acc.1.get? (m.fold c.nick) = some kept) :
    Indexes m (l ++ [c]) (acc.1, acc.2 ++ [(kept, c.id)]) := by
  have hFirst := (h.index _ _).mp hKept
  have hSame : ∀ key a, FirstOf m (l ++ [c]) key a ↔ FirstOf m l key a := by
    intro key a
    rw [firstOf_append hLast]
    refine or_iff_left ?_
    rintro ⟨rfl, rfl, hNone⟩
    obtain ⟨⟨d, hd, _, hKey⟩, _⟩ := hFirst
    exact hNone d hd hKey
  constructor
  case index => exact fun key a => (h.index key a).trans (hSame key a).symm
  case complete =>
    intro d hd
    rcases List.mem_append.mp hd with hd | hd
    · exact h.complete d hd
    · rw [List.mem_singleton.mp hd]
      exact ⟨kept, hKept⟩
  case pairs =>
    intro a d
    simp only [List.mem_append, List.mem_singleton, h.pairs, hSame, Prod.mk.injEq]
    constructor
    · rintro (⟨e, he, hPair⟩ | ⟨rfl, rfl⟩)
      · exact ⟨e, Or.inl he, hPair⟩
      · exact ⟨c, Or.inr rfl, rfl, hFirst, Nat.ne_of_lt (hFirst.lt hLast)⟩
    · rintro ⟨e, he | rfl, hId, hThis, hNe⟩
      · exact Or.inl ⟨e, he, hId, hThis, hNe⟩
      · exact Or.inr ⟨hThis.unique hFirst, hId.symm⟩
  case order =>
    refine List.pairwise_append.mpr ⟨h.order, List.pairwise_singleton _ _, ?_⟩
    rintro ⟨a, d⟩ hPair p hp
    obtain ⟨e, he, rfl, _⟩ := (h.pairs a d).mp hPair
    rw [List.mem_singleton.mp hp]
    exact hLast e he

/-- A record whose key is free takes it. -/
theorem Indexes.insert (h : Indexes m l acc) (hLast : ∀ e ∈ l, e.id < c.id)
    (hFree : acc.1.get? (m.fold c.nick) = none) :
    Indexes m (l ++ [c]) (acc.1.insert (m.fold c.nick) c.id, acc.2) := by
  have hNone : ∀ e ∈ l, m.fold e.nick ≠ m.fold c.nick := by
    intro e he hSame
    obtain ⟨a, ha⟩ := h.complete e he
    rw [hSame, hFree] at ha
    cases ha
  constructor
  case index =>
    intro key a
    rw [SortedMap.get?_insert, firstOf_append hLast]
    by_cases hKey : key = m.fold c.nick
    · rw [if_pos hKey]
      constructor
      · intro hId
        refine Or.inr ⟨(Option.some.inj hId).symm, hKey, fun e he => ?_⟩
        rw [hKey]
        exact hNone e he
      · rintro (⟨⟨d, hd, _, hSame⟩, _⟩ | ⟨rfl, _⟩)
        · exact absurd (hSame.trans hKey) (hNone d hd)
        · rfl
    · rw [if_neg hKey, h.index]
      refine (or_iff_left ?_).symm
      exact fun hNew => hKey hNew.2.1
  case complete =>
    intro d hd
    rw [SortedMap.get?_insert]
    by_cases hKey : m.fold d.nick = m.fold c.nick
    · exact ⟨c.id, if_pos hKey⟩
    · rw [if_neg hKey]
      rcases List.mem_append.mp hd with hd | hd
      · exact h.complete d hd
      · rw [List.mem_singleton] at hd
        exact absurd (congrArg (fun e : Client => m.fold e.nick) hd) hKey
  case pairs =>
    intro a d
    simp only [h.pairs, List.mem_append, List.mem_singleton]
    constructor
    · rintro ⟨e, he, hId, hFirst, hNe⟩
      exact ⟨e, Or.inl he, hId, (firstOf_append hLast _ _).mpr (Or.inl hFirst), hNe⟩
    · rintro ⟨e, he, hId, hFirst, hNe⟩
      rcases (firstOf_append hLast _ _).mp hFirst with hBefore | ⟨hSelf, hKey, hOthers⟩
      · rcases he with he | rfl
        · exact ⟨e, he, hId, hBefore, hNe⟩
        · obtain ⟨⟨f, hf, _, hSame⟩, _⟩ := hBefore
          exact absurd hSame (hNone f hf)
      · rcases he with he | rfl
        · exact absurd rfl (hOthers e he)
        · exact absurd (hSelf.trans hId) hNe
  case order => exact h.order

/-- One more user either is indexed or is paired with the first one of the same nickname. -/
theorem Indexes.indexOne (h : Indexes m l acc) (hLast : ∀ e ∈ l, e.id < c.id) :
    Indexes m (l ++ [c]) (indexOne m acc c) := by
  unfold Roster.indexOne
  cases hKept : acc.1.get? (m.fold c.nick) with
  | some kept => exact h.pair hLast hKept
  | none => exact h.insert hLast hKept

end Step

/-- After all users, the index has the first of each nickname, and the pairs are the others with
them. -/
theorem indexes_indexUnder (m : CaseMapping) {l : List Client}
    (hl : l.Pairwise fun c d => c.id < d.id) : Indexes m l (indexUnder m l) := by
  induction l using List.reverseRecOn with
  | nil => exact indexes_nil m
  | append_singleton l c ih =>
      obtain ⟨hInit, _, hLast⟩ := List.pairwise_append.mp hl
      rw [indexUnder_append]
      exact (ih hInit).indexOne fun e he => hLast e he c (List.mem_singleton_self c)

/-- The oldest user whose nickname folds to the key. -/
def Eldest (r : Roster) (m : CaseMapping) (key : String) (a : ClientId) : Prop :=
  (∃ c, r.get? a = some c ∧ m.fold c.nick = key) ∧
  ∀ i c, r.get? i = some c → m.fold c.nick = key → a ≤ i

/-- The records of a roster come in the order of their identities, so first is oldest. -/
theorem Sound.increasing_values {r : Roster} (h : r.Sound) :
    r.clients.values.Pairwise fun c d => c.id < d.id := by
  refine List.pairwise_map.mpr (List.Pairwise.imp_of_mem ?_ r.clients.increasing)
  rintro ⟨i, c⟩ ⟨j, d⟩ hc hd hLt
  rw [(h.identity (SortedMap.mem_entries_iff.mp hc)).1,
    (h.identity (SortedMap.mem_entries_iff.mp hd)).1]
  exact hLt

theorem Sound.mem_values_iff {r : Roster} (h : r.Sound) {c : Client} :
    c ∈ r.clients.values ↔ r.get? c.id = some c := by
  rw [SortedMap.mem_values_iff]
  constructor
  · rintro ⟨i, hi⟩
    rw [(h.identity hi).1]
    exact hi
  · exact fun hc => ⟨c.id, hc⟩

/-- The first in the order of the records is the oldest. -/
theorem Sound.firstOf_iff {r : Roster} (h : r.Sound) (m : CaseMapping) (key : String)
    (a : ClientId) : FirstOf m r.clients.values key a ↔ r.Eldest m key a := by
  unfold FirstOf Eldest
  simp only [h.mem_values_iff]
  constructor
  · rintro ⟨⟨c, hc, rfl, hKey⟩, hLeast⟩
    refine ⟨⟨c, hc, hKey⟩, fun i d hd hSame => ?_⟩
    have hId := (h.identity hd).1
    rw [← hId]
    exact hLeast d (by rw [hId]; exact hd) hSame
  · rintro ⟨⟨c, hc, hKey⟩, hLeast⟩
    have hId := (h.identity hc).1
    exact ⟨⟨c, by rw [hId]; exact hc, hId, hKey⟩, fun d hd hSame => hLeast d.id d hd hSame⟩

/-- Filed anew, each nickname leads to the oldest user who has it. -/
theorem byNick_rekey {r : Roster} (h : r.Sound) (m : CaseMapping) (key : String) (a : ClientId) :
    (r.rekey m).2.byNick.get? key = some a ↔ r.Eldest m key a :=
  ((indexes_indexUnder m h.increasing_values).index key a).trans (h.firstOf_iff m key a)

/-- Everyone else is paired with the oldest. -/
theorem mem_rekey_iff {r : Roster} (h : r.Sound) (m : CaseMapping) (a d : ClientId) :
    (a, d) ∈ (r.rekey m).1 ↔
      ∃ c, r.get? d = some c ∧ r.Eldest m (m.fold c.nick) a ∧ a ≠ d := by
  refine ((indexes_indexUnder m h.increasing_values).pairs a d).trans ?_
  simp only [h.mem_values_iff, h.firstOf_iff]
  constructor
  · rintro ⟨c, hc, rfl, hRest⟩
    exact ⟨c, hc, hRest⟩
  · rintro ⟨c, hc, hRest⟩
    have hId := (h.identity hc).1
    exact ⟨c, by rw [hId]; exact hc, hId, hRest⟩

/-- The pairs come in the order of the younger users. -/
theorem increasing_rekey {r : Roster} (h : r.Sound) (m : CaseMapping) :
    (r.rekey m).1.Pairwise fun p p' => p.2 < p'.2 :=
  (indexes_indexUnder m h.increasing_values).order

/-- Whoever has a nickname, someone is the oldest with it. -/
theorem exists_eldest {r : Roster} (h : r.Sound) (m : CaseMapping) {i : ClientId} {c : Client}
    (hc : r.get? i = some c) : ∃ a, r.Eldest m (m.fold c.nick) a := by
  have hMem : c ∈ r.clients.values := by
    rw [h.mem_values_iff, (h.identity hc).1]
    exact hc
  obtain ⟨a, ha⟩ := (indexes_indexUnder m h.increasing_values).complete c hMem
  exact ⟨a, (byNick_rekey h m _ a).mp ha⟩

end Irc.Roster
