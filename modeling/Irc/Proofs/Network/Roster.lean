import Irc.Network.Roster
import Irc.Proofs.SortedMap
/-! What keeps a roster in order: records stand under their own identities, all of them handed
out already, and the index leads from a folded nickname to a user who has it. Each operation is
described by its lookups first; the order of the whole roster follows from these. -/
namespace Irc.Roster

/-- Records stand under their own identities, and no index entry is stale. A record need not be
indexed: its nickname may have gone to another user. -/
structure Sound (r : Roster) : Prop where
  identity : ∀ {id c}, r.get? id = some c → c.id = id ∧ id < r.nextId
  index : ∀ {key id}, r.byNick.get? key = some id →
    ∃ c, r.get? id = some c ∧ r.mapping.fold c.nick = key

/-- The user has the channel's key in the record. -/
def InChannel (r : Roster) (id : ClientId) (key : String) : Prop :=
  ∃ c, r.get? id = some c ∧ c.channels.contains key = true

/-- Identities are only handed out, and one without a record never gets a record again. -/
structure Continues (r r' : Roster) : Prop where
  issued : r.nextId ≤ r'.nextId
  gone : ∀ id < r.nextId, r.get? id = none → r'.get? id = none

theorem Continues.refl (r : Roster) : r.Continues r := ⟨Nat.le_refl _, fun _ _ h => h⟩

theorem Continues.trans {r r' r'' : Roster} (h : r.Continues r') (h' : r'.Continues r'') :
    r.Continues r'' where
  issued := Nat.le_trans h.issued h'.issued
  gone id hLt hNone := h'.gone id (Nat.lt_of_lt_of_le hLt h.issued) (h.gone id hLt hNone)

theorem InChannel.isSome {r : Roster} {id : ClientId} {key : String} (h : r.InChannel id key) :
    ∃ c, r.get? id = some c := by
  obtain ⟨c, hc, _⟩ := h
  exact ⟨c, hc⟩

/-- To be in a channel is to have its key in the record. -/
theorem inChannel_iff_of_get? {r : Roster} {id : ClientId} {c : Client} (h : r.get? id = some c)
    (key : String) : r.InChannel id key ↔ c.channels.contains key = true := by
  constructor
  · rintro ⟨c', hc', hKey⟩
    rw [h] at hc'
    cases hc'
    exact hKey
  · exact fun hKey => ⟨c, h, hKey⟩

@[simp] theorem mapping_modify (r : Roster) (id : ClientId) (f : Client → Client) :
    (r.modify id f).mapping = r.mapping := rfl

theorem get?_modify (r : Roster) (id i : ClientId) (f : Client → Client) :
    (r.modify id f).get? i = if i = id then (r.get? id).map f else r.get? i :=
  SortedMap.get?_modify r.clients id i f

theorem continues_modify (r : Roster) (id : ClientId) (f : Client → Client) :
    r.Continues (r.modify id f) where
  issued := Nat.le_refl _
  gone i _ hNone := by
    rw [get?_modify]
    by_cases h : i = id
    · rw [if_pos h, ← h, hNone]
      rfl
    · rw [if_neg h, hNone]

/-- A change that keeps identity and nickname keeps the roster in order. -/
theorem Sound.modify {r : Roster} (h : r.Sound) (id : ClientId) {f : Client → Client}
    (hId : ∀ c, (f c).id = c.id) (hNick : ∀ c, (f c).nick = c.nick) : (r.modify id f).Sound where
  identity := by
    intro i c hc
    rw [get?_modify] at hc
    by_cases hi : i = id
    · rw [if_pos hi, Option.map_eq_some_iff] at hc
      obtain ⟨old, hOld, rfl⟩ := hc
      rw [hId, hi]
      exact h.identity hOld
    · rw [if_neg hi] at hc
      exact h.identity hc
  index := by
    intro key i hi
    obtain ⟨c, hc, hKey⟩ := h.index hi
    rw [get?_modify]
    by_cases he : i = id
    · refine ⟨f c, ?_, ?_⟩
      · rw [if_pos he, ← he, hc]
        rfl
      · rw [hNick]
        exact hKey
    · exact ⟨c, by rw [if_neg he, hc], hKey⟩

theorem inChannel_modify (r : Roster) (id i : ClientId) (f : Client → Client) (key : String) :
    (r.modify id f).InChannel i key ↔
      if i = id then ∃ c, r.get? id = some c ∧ (f c).channels.contains key = true
      else r.InChannel i key := by
  unfold InChannel
  rw [get?_modify]
  by_cases h : i = id
  · cases hr : r.get? id <;> simp [h]
  · simp [h]

/-- A change that keeps the channel keys keeps the memberships. -/
theorem inChannel_modify_of_channels (r : Roster) (id i : ClientId) {f : Client → Client}
    (hf : ∀ c, (f c).channels = c.channels) (key : String) :
    (r.modify id f).InChannel i key ↔ r.InChannel i key := by
  rw [inChannel_modify]
  by_cases h : i = id
  · simp [h, hf, InChannel]
  · simp [h]

/-- One more channel for one user. -/
theorem inChannel_modify_add {r : Roster} {id : ClientId} (hSome : ∃ c, r.get? id = some c)
    (added : String) (i : ClientId) (key : String) :
    (r.modify id fun c => { c with channels := c.channels.add added }).InChannel i key ↔
      r.InChannel i key ∨ (i = id ∧ key = added) := by
  obtain ⟨c, hc⟩ := hSome
  rw [inChannel_modify]
  by_cases h : i = id
  · simp [h, hc, InChannel, or_comm]
  · simp [h]

/-- One channel less for one user. -/
theorem inChannel_modify_erase (r : Roster) (id : ClientId) (erased : String) (i : ClientId)
    (key : String) :
    (r.modify id fun c => { c with channels := c.channels.erase erased }).InChannel i key ↔
      r.InChannel i key ∧ ¬(i = id ∧ key = erased) := by
  rw [inChannel_modify]
  by_cases h : i = id
  · simp only [h, if_true, InChannel, SortedMap.contains_erase, true_and]
    constructor
    · rintro ⟨c, hc, hNe, hKey⟩
      exact ⟨⟨c, hc, hKey⟩, hNe⟩
    · rintro ⟨⟨c, hc, hKey⟩, hNe⟩
      exact ⟨c, hc, hNe, hKey⟩
  · simp [h]

theorem inChannel_modify_clear (r : Roster) (id i : ClientId) (key : String) :
    (r.modify id fun c => { c with channels := SortedMap.empty }).InChannel i key ↔
      r.InChannel i key ∧ i ≠ id := by
  rw [inChannel_modify]
  by_cases h : i = id <;> simp [h]

/-- The record that a source names learns the parts given with it; a source that names no one
gets the next identity. -/
theorem getOrCreate_cases (r : Roster) (mask : String) :
    (∃ id, r.findId? mask = some id ∧ r.getOrCreate mask =
      (id, r.modify id fun c =>
        c.learn (Hostmask.ofString mask).ident (Hostmask.ofString mask).host)) ∨
    (r.findId? mask = none ∧ r.getOrCreate mask =
      (r.nextId,
        { r with
          nextId := r.nextId + 1
          clients := r.clients.insert r.nextId
            { id := r.nextId, nick := Hostmask.nickOf mask,
              ident := (Hostmask.ofString mask).ident, host := (Hostmask.ofString mask).host }
          byNick := r.byNick.insert (r.mapping.fold (Hostmask.nickOf mask)) r.nextId })) := by
  have hKey : r.findId? mask = r.byNick.get? (r.mapping.fold (Hostmask.ofString mask).nick) := rfl
  unfold getOrCreate
  cases h : r.byNick.get? (r.mapping.fold (Hostmask.ofString mask).nick) with
  | some id => exact Or.inl ⟨id, hKey.trans h, by simp only [h]⟩
  | none => exact Or.inr ⟨hKey.trans h, by simp only [h]; rfl⟩

theorem mapping_getOrCreate (r : Roster) (mask : String) :
    (r.getOrCreate mask).2.mapping = r.mapping := by
  rcases r.getOrCreate_cases mask with ⟨id, _, he⟩ | ⟨_, he⟩
  · exact congrArg (·.2.mapping) he
  · exact congrArg (·.2.mapping) he

/-- The next identity has no record. -/
theorem get?_nextId {r : Roster} (h : r.Sound) : r.get? r.nextId = none := by
  cases hc : r.get? r.nextId with
  | none => rfl
  | some c => exact absurd (h.identity hc).2 (Nat.lt_irrefl _)

/-- A roster stays in order when a user is looked up or made. -/
theorem Sound.getOrCreate {r : Roster} (h : r.Sound) (mask : String) :
    (r.getOrCreate mask).2.Sound := by
  rcases r.getOrCreate_cases mask with ⟨id, _, he⟩ | ⟨_, he⟩
  · rw [he]
    exact h.modify id (fun _ => rfl) (fun _ => rfl)
  · rw [he]
    constructor
    · intro i c hc
      simp only [get?, SortedMap.get?_insert] at hc
      by_cases hi : i = r.nextId
      · rw [if_pos hi] at hc
        cases hc
        exact ⟨hi.symm, by rw [hi]; exact Nat.lt_succ_self _⟩
      · rw [if_neg hi] at hc
        exact ⟨(h.identity hc).1, Nat.lt_succ_of_lt (h.identity hc).2⟩
    · intro key i hi
      simp only [get?, SortedMap.get?_insert] at hi ⊢
      by_cases hk : key = r.mapping.fold (Hostmask.nickOf mask)
      · rw [if_pos hk] at hi
        cases hi
        exact ⟨_, if_pos rfl, hk.symm⟩
      · rw [if_neg hk] at hi
        obtain ⟨c, hc, hKey⟩ := h.index hi
        have hNe : i ≠ r.nextId := Nat.ne_of_lt (h.identity hc).2
        exact ⟨c, by rw [if_neg hNe]; exact hc, hKey⟩

/-- A user who is made gets an identity that was never handed out. -/
theorem continues_getOrCreate {r : Roster} (mask : String) :
    r.Continues (r.getOrCreate mask).2 := by
  rcases r.getOrCreate_cases mask with ⟨id, _, he⟩ | ⟨_, he⟩
  · rw [he]
    exact continues_modify r id _
  · rw [he]
    refine ⟨Nat.le_succ _, fun i hLt hNone => ?_⟩
    simp only [get?, SortedMap.get?_insert]
    rw [if_neg (Nat.ne_of_lt hLt)]
    exact hNone

/-- The answered user has a record with the nickname, which keeps what was there before. -/
theorem get?_getOrCreate {r : Roster} (h : r.Sound) (mask : String) :
    ∃ c, (r.getOrCreate mask).2.get? (r.getOrCreate mask).1 = some c ∧
      r.mapping.fold c.nick = r.mapping.fold (Hostmask.nickOf mask) ∧
      (∀ old, r.get? (r.getOrCreate mask).1 = some old →
        c.nick = old.nick ∧ c.keptAlive = old.keptAlive) ∧
      (r.get? (r.getOrCreate mask).1 = none → c.keptAlive = false) := by
  rcases r.getOrCreate_cases mask with ⟨id, hFind, he⟩ | ⟨_, he⟩
  · obtain ⟨c, hc, hKey⟩ := h.index hFind
    rw [he]
    refine ⟨c.learn (Hostmask.ofString mask).ident (Hostmask.ofString mask).host, ?_, hKey,
      fun old hOld => ?_, fun hNone => ?_⟩
    · rw [get?_modify, if_pos rfl, hc]
      rfl
    · rw [hc] at hOld
      cases hOld
      exact ⟨rfl, rfl⟩
    · rw [hc] at hNone
      cases hNone
  · rw [he]
    refine ⟨_, SortedMap.get?_insert_self _ _ _, rfl, fun old hOld => ?_, fun _ => rfl⟩
    rw [get?_nextId h] at hOld
    cases hOld

theorem get?_getOrCreate_of_ne (r : Roster) {mask : String} {i : ClientId}
    (hi : i ≠ (r.getOrCreate mask).1) : (r.getOrCreate mask).2.get? i = r.get? i := by
  rcases r.getOrCreate_cases mask with ⟨id, _, he⟩ | ⟨_, he⟩
  · rw [he] at hi ⊢
    rw [get?_modify, if_neg hi]
  · rw [he] at hi ⊢
    exact SortedMap.get?_insert_of_ne _ hi _

/-- Whoever has just been made is in no channel. -/
theorem inChannel_getOrCreate {r : Roster} (h : r.Sound) (mask : String) (i : ClientId)
    (key : String) : (r.getOrCreate mask).2.InChannel i key ↔ r.InChannel i key := by
  rcases r.getOrCreate_cases mask with ⟨id, _, he⟩ | ⟨_, he⟩
  · rw [he]
    refine r.inChannel_modify_of_channels id i ?_ key
    exact fun _ => rfl
  · rw [he]
    unfold InChannel
    simp only [get?, SortedMap.get?_insert]
    by_cases hi : i = r.nextId
    · subst hi
      have hNone : r.clients.get? r.nextId = none := get?_nextId h
      simp [hNone]
    · rw [if_neg hi]

@[simp] theorem mapping_remove (r : Roster) (id : ClientId) :
    (r.remove id).2.mapping = r.mapping := by
  unfold remove
  cases r.clients.get? id <;> rfl

@[simp] theorem nextId_remove (r : Roster) (id : ClientId) :
    (r.remove id).2.nextId = r.nextId := by
  unfold remove
  cases r.clients.get? id <;> rfl

theorem remove_fst (r : Roster) (id : ClientId) : (r.remove id).1 = r.get? id := by
  unfold remove get?
  cases r.clients.get? id <;> rfl

theorem get?_remove (r : Roster) (id i : ClientId) :
    (r.remove id).2.get? i = if i = id then none else r.get? i := by
  unfold remove get?
  cases h : r.clients.get? id with
  | none =>
      by_cases hi : i = id
      · rw [if_pos hi, hi]
        exact h
      · rw [if_neg hi]
  | some c => exact SortedMap.get?_erase r.clients id i

/-- Exactly the index entries that lead to the removed user go. -/
theorem byNick_remove {r : Roster} (h : r.Sound) (id : ClientId) (key : String) :
    (r.remove id).2.byNick.get? key =
      if r.byNick.get? key = some id then none else r.byNick.get? key := by
  by_cases hKey : r.byNick.get? key = some id
  · obtain ⟨c, hc, rfl⟩ := h.index hKey
    have hGet : r.clients.get? id = some c := hc
    simp only [remove, hGet, hKey, if_true, SortedMap.get?_erase_self]
  · rw [if_neg hKey]
    unfold remove
    cases hGet : r.clients.get? id with
    | none => rfl
    | some c =>
        by_cases hOwn : r.byNick.get? (r.mapping.fold c.nick) = some id
        · have hNe : key ≠ r.mapping.fold c.nick := fun he => hKey (he ▸ hOwn)
          simp only [hOwn, if_true]
          exact SortedMap.get?_erase_of_ne _ hNe
        · simp only [hOwn, if_false]

/-- With a record go the entries that lead to it. -/
theorem Sound.remove {r : Roster} (h : r.Sound) (id : ClientId) : (r.remove id).2.Sound where
  identity := by
    intro i c hc
    rw [get?_remove] at hc
    by_cases hi : i = id
    · rw [if_pos hi] at hc
      cases hc
    · rw [if_neg hi] at hc
      rw [nextId_remove]
      exact h.identity hc
  index := by
    intro key i hi
    rw [byNick_remove h] at hi
    by_cases hKey : r.byNick.get? key = some id
    · rw [if_pos hKey] at hi
      cases hi
    · rw [if_neg hKey] at hi
      have hNe : i ≠ id := fun he => hKey (he ▸ hi)
      rw [get?_remove, if_neg hNe, mapping_remove]
      exact h.index hi

/-- An identity whose record is removed is not handed out again. -/
theorem continues_remove (r : Roster) (id : ClientId) : r.Continues (r.remove id).2 where
  issued := Nat.le_of_eq (nextId_remove r id).symm
  gone i _ hNone := by
    rw [get?_remove, hNone, ite_self]

/-- With a record go its memberships. -/
theorem inChannel_remove (r : Roster) (id i : ClientId) (key : String) :
    (r.remove id).2.InChannel i key ↔ r.InChannel i key ∧ i ≠ id := by
  unfold InChannel
  rw [get?_remove]
  by_cases h : i = id <;> simp [h]

/-- The index entry under the new nickname is overwritten, whoever it led to. -/
theorem rename_cases (r : Roster) (old new : String) :
    (r.findId? old = none ∧ r.rename old new = (none, r)) ∨
    (∃ id, r.findId? old = some id ∧ r.rename old new =
      (some id,
        { r with
          byNick := (r.byNick.erase (r.mapping.fold (Hostmask.nickOf old))).insert
            (r.mapping.fold new) id
          clients := r.clients.modify id fun c => { c with nick := new } })) := by
  unfold rename findId?
  cases h : r.byNick.get? (r.mapping.fold (Hostmask.nickOf old)) with
  | none => exact Or.inl ⟨rfl, by simp only [h]⟩
  | some id => exact Or.inr ⟨id, rfl, by simp only [h]⟩

theorem mapping_rename (r : Roster) (old new : String) :
    (r.rename old new).2.mapping = r.mapping := by
  rcases r.rename_cases old new with ⟨_, he⟩ | ⟨id, _, he⟩ <;> rw [he]

theorem nextId_rename (r : Roster) (old new : String) : (r.rename old new).2.nextId = r.nextId := by
  rcases r.rename_cases old new with ⟨_, he⟩ | ⟨id, _, he⟩ <;> rw [he]

/-- A renaming changes one nickname in one record. -/
theorem get?_rename {r : Roster} {old : String} {id : ClientId} (h : r.findId? old = some id)
    (new : String) (i : ClientId) :
    (r.rename old new).2.get? i =
      if i = id then (r.get? id).map fun c => { c with nick := new } else r.get? i := by
  rcases r.rename_cases old new with ⟨hFind, _⟩ | ⟨id', hFind, he⟩
  · rw [h] at hFind
    cases hFind
  · rw [h] at hFind
    cases hFind
    rw [he]
    exact SortedMap.get?_modify _ _ _ _

theorem get?_rename_eq_map {r : Roster} {old : String} {id : ClientId}
    (h : r.findId? old = some id) (new : String) (i : ClientId) :
    (r.rename old new).2.get? i =
      (r.get? i).map fun c => if i = id then { c with nick := new } else c := by
  rw [get?_rename h]
  by_cases hi : i = id
  · simp only [hi, if_true]
  · simp only [hi, if_false, Option.map_id']

/-- The index forgets the old nickname and leads from the new one to the user. -/
theorem byNick_rename {r : Roster} {old : String} {id : ClientId} (h : r.findId? old = some id)
    (new key : String) :
    (r.rename old new).2.byNick.get? key =
      if key = r.mapping.fold new then some id
      else if key = r.mapping.fold (Hostmask.nickOf old) then none else r.byNick.get? key := by
  rcases r.rename_cases old new with ⟨hFind, _⟩ | ⟨id', hFind, he⟩
  · rw [h] at hFind
    cases hFind
  · rw [h] at hFind
    cases hFind
    rw [he]
    simp only [SortedMap.get?_insert, SortedMap.get?_erase]

/-- The index stays in order, whoever had the new nickname before. -/
theorem Sound.rename {r : Roster} (h : r.Sound) (old new : String) :
    (r.rename old new).2.Sound := by
  cases hFind : r.findId? old with
  | none =>
      rcases r.rename_cases old new with ⟨_, he⟩ | ⟨id, hSome, _⟩
      · rw [he]
        exact h
      · rw [hFind] at hSome
        cases hSome
  | some id =>
      obtain ⟨c, hc, hOld⟩ := h.index hFind
      constructor
      · intro i c' hc'
        rw [get?_rename hFind] at hc'
        rw [nextId_rename]
        by_cases hi : i = id
        · rw [if_pos hi, hc] at hc'
          cases hc'
          rw [hi]
          exact ⟨(h.identity hc).1, (h.identity hc).2⟩
        · rw [if_neg hi] at hc'
          exact h.identity hc'
      · intro key i hi
        rw [byNick_rename hFind] at hi
        rw [mapping_rename, get?_rename hFind]
        by_cases hNew : key = r.mapping.fold new
        · rw [if_pos hNew] at hi
          cases hi
          exact ⟨{ c with nick := new }, by rw [if_pos rfl, hc]; rfl, hNew.symm⟩
        · rw [if_neg hNew] at hi
          by_cases hKey : key = r.mapping.fold (Hostmask.nickOf old)
          · rw [if_pos hKey] at hi
            cases hi
          · rw [if_neg hKey] at hi
            obtain ⟨d, hd, hFold⟩ := h.index hi
            -- The renamed user had one index entry, and it was under the old nickname.
            have hNe : i ≠ id := by
              rintro rfl
              rw [hc] at hd
              cases hd
              exact hKey (hFold.symm.trans hOld)
            exact ⟨d, by rw [if_neg hNe, hd], hFold⟩

theorem continues_rename (r : Roster) (old new : String) :
    r.Continues (r.rename old new).2 := by
  rcases r.rename_cases old new with ⟨_, he⟩ | ⟨id, hFind, he⟩
  · rw [he]
    exact Continues.refl r
  · refine ⟨Nat.le_of_eq (nextId_rename r old new).symm, fun i _ hNone => ?_⟩
    rw [get?_rename hFind]
    by_cases hi : i = id
    · rw [if_pos hi, ← hi, hNone]
      rfl
    · rw [if_neg hi, hNone]

/-- Memberships do not depend on nicknames. -/
theorem inChannel_rename (r : Roster) (old new : String) (i : ClientId) (key : String) :
    (r.rename old new).2.InChannel i key ↔ r.InChannel i key := by
  rcases r.rename_cases old new with ⟨_, he⟩ | ⟨id, _, he⟩
  · rw [he]
  · rw [he]
    refine r.inChannel_modify_of_channels id i (f := fun c => { c with nick := new }) ?_ key
    exact fun _ => rfl

theorem sound_new (mapping : CaseMapping) : (new mapping).Sound where
  identity hc := by cases hc
  index hi := by cases hi

theorem Sound.clear {r : Roster} : r.clear.Sound where
  identity hc := by cases hc
  index hi := by cases hi

/-- Clearing does not start the identities anew. -/
theorem continues_clear (r : Roster) : r.Continues r.clear := ⟨Nat.le_refl _, fun _ _ _ => rfl⟩

theorem not_inChannel_clear (r : Roster) (i : ClientId) (key : String) :
    ¬r.clear.InChannel i key := by
  rintro ⟨c, hc, _⟩
  cases hc

end Irc.Roster
