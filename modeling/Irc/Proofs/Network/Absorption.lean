import Irc.Proofs.Network.ChannelTable
/-! Two records of one channel are united. What a channel says about a member is asked through a
question about the member's statuses; a question is additive if a union of statuses answers it
just when one of the two does. Whether there is a member at all is such a question. -/
namespace Irc

/-- A union of statuses answers the question just when one of them does. -/
def ModeMask.Additive (q : ModeMask → Prop) : Prop := ∀ a b : ModeMask, q (a ||| b) ↔ q a ∨ q b

theorem ModeMask.additive_true : Additive fun _ => True := fun _ _ => (or_self _).symm ▸ Iff.rfl

/-- Whether a bit is set is additive, since statuses are united bit by bit. -/
theorem ModeMask.additive_has (bit : Fin 64) : Additive fun m => m.has bit = true := by
  intro a b
  simp [has]

/-- One membership out of two: the statuses of both, and the older properties first. -/
def Member.merge (m other : Member) : Member :=
  { m with modes := m.modes ||| other.modes, properties := m.properties.union other.properties }

namespace Channel

/-- The channel has a record of the user, with statuses that answer the question. -/
def Holds (c : Channel) (id : ClientId) (q : ModeMask → Prop) : Prop :=
  ∃ r, c.members.get? id = some r ∧ q r.modes

/-- To be a member is to hold the question that everyone answers. -/
theorem holds_true_iff {c : Channel} {id : ClientId} :
    c.Holds id (fun _ => True) ↔ c.members.contains id = true := by
  simp [Holds, SortedMap.contains_iff]

variable {q : ModeMask → Prop}

/-- A member who is there already gains statuses, and one who is not comes in. -/
theorem mergeMember_cases (c : Channel) (m : Member) :
    (∃ old, c.members.get? m.client = some old ∧ c.mergeMember m =
      { c with
        members := c.members.insert m.client
          { old with
            modes := old.modes ||| m.modes
            properties := old.properties.union m.properties } }) ∨
    (c.members.get? m.client = none ∧
      c.mergeMember m = { c with members := c.members.insert m.client m }) := by
  unfold mergeMember
  cases h : c.members.get? m.client with
  | some old => exact Or.inl ⟨old, rfl, rfl⟩
  | none => exact Or.inr ⟨rfl, rfl⟩

theorem mergeMember_eq (c : Channel) (m : Member) :
    c.mergeMember m = { c with
      members := c.members.insert m.client
        (((c.member? m.client).map (Member.merge · m)).getD m) } := by
  rw [member?]
  rcases c.mergeMember_cases m with ⟨old, hOld, he⟩ | ⟨hNone, he⟩
  · rw [he, hOld]
    rfl
  · rw [he, hNone]
    rfl

theorem name_mergeMember (c : Channel) (m : Member) : (c.mergeMember m).name = c.name := by
  rw [mergeMember_eq]

/-- Taking in a member adds what this member holds, and nothing else. -/
theorem holds_mergeMember (hq : ModeMask.Additive q) (c : Channel) (m : Member) (id : ClientId) :
    (c.mergeMember m).Holds id q ↔ c.Holds id q ∨ (m.client = id ∧ q m.modes) := by
  unfold Holds
  rcases c.mergeMember_cases m with ⟨old, hOld, he⟩ | ⟨hNone, he⟩
  · rw [he]
    simp only [SortedMap.get?_insert]
    by_cases h : id = m.client
    · rw [if_pos h, h, hOld]
      simp [hq old.modes m.modes]
    · simp [h, Ne.symm h]
  · rw [he]
    simp only [SortedMap.get?_insert]
    by_cases h : id = m.client
    · simp [h, hNone]
    · simp [h, Ne.symm h]

theorem Sound.mergeMember {c : Channel} (h : c.Sound) (m : Member) : (c.mergeMember m).Sound := by
  have hInsert : ∀ r : Member, r.client = m.client →
      { c with members := c.members.insert m.client r }.Sound := by
    intro r hr id s hs
    rw [SortedMap.get?_insert] at hs
    by_cases hId : id = m.client
    · rw [if_pos hId] at hs
      cases hs
      exact hr.trans hId.symm
    · rw [if_neg hId] at hs
      exact h hs
  rcases c.mergeMember_cases m with ⟨old, hOld, he⟩ | ⟨_, he⟩
  · rw [he]
    have hClient : old.client = m.client := h hOld
    apply hInsert
    exact hClient
  · rw [he]
    apply hInsert
    rfl

theorem Sound.foldl_mergeMember (l : List Member) {c : Channel} (h : c.Sound) :
    (l.foldl Channel.mergeMember c).Sound := by
  induction l generalizing c with
  | nil => exact h
  | cons m rest ih => exact ih (h.mergeMember m)

/-- Taking in any number of members adds what these hold, in whatever order they come. -/
theorem holds_foldl_mergeMember (hq : ModeMask.Additive q) (l : List Member) (c : Channel)
    (id : ClientId) :
    (l.foldl mergeMember c).Holds id q ↔ c.Holds id q ∨ ∃ m ∈ l, m.client = id ∧ q m.modes := by
  induction l generalizing c with
  | nil => simp
  | cons m rest ih =>
      rw [List.foldl_cons, ih, holds_mergeMember hq, or_assoc]
      simp

/-- Taking in members changes nothing but the members. -/
theorem foldl_mergeMember_frame (l : List Member) (c : Channel) :
    ∃ members, l.foldl mergeMember c = { c with members } := by
  induction l generalizing c with
  | nil => exact ⟨_, rfl⟩
  | cons m rest ih =>
      obtain ⟨members, hRest⟩ := ih (c.mergeMember m)
      rw [mergeMember_eq] at hRest
      exact ⟨members, by rw [List.foldl_cons, mergeMember_eq, hRest]⟩

def addEntries (letter : Char) (c : Channel) (l : List ListEntry) : Channel :=
  l.foldl (fun acc entry => acc.addEntry letter entry) c

def addLists (c : Channel) (lists : List (Char × List ListEntry)) : Channel :=
  lists.foldl (fun acc e => addEntries e.1 acc e.2) c

/-- Taking in entries changes nothing but the lists. -/
theorem addEntries_frame (letter : Char) (l : List ListEntry) (c : Channel) :
    ∃ lists, addEntries letter c l = { c with lists } := by
  induction l generalizing c with
  | nil => exact ⟨_, rfl⟩
  | cons e rest ih =>
      obtain ⟨lists, hRest⟩ := ih (c.addEntry letter e)
      exact ⟨lists, hRest⟩

/-- Taking in all the lists of another record changes nothing but the lists. -/
theorem addLists_frame (l : List (Char × List ListEntry)) (c : Channel) :
    ∃ lists, addLists c l = { c with lists } := by
  induction l generalizing c with
  | nil => exact ⟨_, rfl⟩
  | cons first rest ih =>
      obtain ⟨lists, hRest⟩ := ih (addEntries first.1 c first.2)
      obtain ⟨_, hFirst⟩ := addEntries_frame first.1 first.2 c
      rw [hFirst] at hRest
      exact ⟨lists, by rw [addLists, List.foldl_cons, ← addLists, hFirst, hRest]⟩

/-- The union of two records of a channel, field by field. -/
theorem absorb_eq (c other : Channel) :
    c.absorb other =
      { name := c.name
        topic := if c.topic.text = "" then other.topic else c.topic
        created := if c.created = 0 then other.created else c.created
        flags := c.flags ||| other.flags
        params := c.params.union other.params
        lists := (addLists (other.members.values.foldl mergeMember c) other.lists.entries).lists
        receiving := c.receiving.union other.receiving
        members := (other.members.values.foldl mergeMember c).members
        namesComplete := c.namesComplete || other.namesComplete
        properties := c.properties.union other.properties } := by
  obtain ⟨members, hMembers⟩ := foldl_mergeMember_frame other.members.values c
  obtain ⟨lists, hLists⟩ := addLists_frame other.lists.entries { c with members }
  unfold absorb addLists addEntries
  unfold addLists addEntries at hLists
  simp only
  rw [hMembers, hLists]

/-- Only the member records of two channels decide who is a member of their union. -/
theorem absorb_frame (c other : Channel) :
    (c.absorb other).name = c.name ∧
    (c.absorb other).members = (other.members.values.foldl mergeMember c).members := by
  rw [absorb_eq]
  exact ⟨rfl, rfl⟩

/-- The record of a channel stays sound when it absorbs another one. -/
theorem Sound.absorb {c : Channel} (h : c.Sound) (other : Channel) : (c.absorb other).Sound :=
  Sound.congr (Sound.foldl_mergeMember other.members.values h) (c.absorb_frame other).2

/-- What a member holds in the united record was held in one of the two. -/
theorem holds_absorb (hq : ModeMask.Additive q) (c : Channel) {other : Channel}
    (hOther : other.Sound) (id : ClientId) :
    (c.absorb other).Holds id q ↔ c.Holds id q ∨ other.Holds id q := by
  have hMembers : (c.absorb other).Holds id q ↔
      (other.members.values.foldl mergeMember c).Holds id q := by
    unfold Holds
    rw [(c.absorb_frame other).2]
  rw [hMembers, holds_foldl_mergeMember hq]
  refine or_congr_right ?_
  constructor
  · rintro ⟨m, hm, rfl, hHas⟩
    obtain ⟨key, hKey⟩ := SortedMap.mem_values_iff.mp hm
    exact ⟨m, by rw [hOther hKey]; exact hKey, hHas⟩
  · rintro ⟨m, hm, hHas⟩
    exact ⟨m, SortedMap.mem_values_iff.mpr ⟨id, hm⟩, hOther hm, hHas⟩

end Channel

namespace ChannelTable

/-- The channel under the key has a record of the user that answers the question. -/
def Holds (t : ChannelTable) (key : String) (id : ClientId) (q : ModeMask → Prop) : Prop :=
  ∃ c, t.channels.get? key = some c ∧ c.Holds id q

theorem hasMember_iff_holds {t : ChannelTable} {key : String} {id : ClientId} :
    t.HasMember key id ↔ t.Holds key id fun _ => True := by
  simp only [HasMember, Holds, Channel.holds_true_iff]

theorem Holds.hasMember {t : ChannelTable} {key : String} {id : ClientId} {q : ModeMask → Prop}
    (h : t.Holds key id q) : t.HasMember key id := by
  obtain ⟨c, hc, r, hr, _⟩ := h
  exact ⟨c, hc, SortedMap.contains_of_get? hr⟩

/-- Puts one record under its key, where it may meet an earlier one. -/
def fileUnder (mapping : CaseMapping) (acc : SortedMap String Channel) (c : Channel) :
    SortedMap String Channel :=
  match acc.get? (mapping.fold c.name) with
  | some first => acc.insert (mapping.fold c.name) (first.absorb c)
  | none => acc.insert (mapping.fold c.name) c

theorem collect_eq_foldl (mapping : CaseMapping) (l : List Channel) :
    collect mapping l = l.foldl (fileUnder mapping) SortedMap.empty := rfl

/-- Filing a record touches what stands under its own key only. -/
theorem get?_fileUnder (mapping : CaseMapping) (acc : SortedMap String Channel) (c : Channel)
    (key : String) :
    (fileUnder mapping acc c).get? key =
      if key = mapping.fold c.name then
        some (((acc.get? (mapping.fold c.name)).map fun first => first.absorb c).getD c)
      else acc.get? key := by
  unfold fileUnder
  cases acc.get? (mapping.fold c.name) with
  | some first => exact SortedMap.get?_insert _ _ _ _
  | none => exact SortedMap.get?_insert _ _ _ _

/-- The keys of collected records are those of the names, and a question that absorbing leaves
to either record is answered by the records that come under the key. -/
theorem foldl_fileUnder (mapping : CaseMapping) (l : List Channel) (hl : ∀ c ∈ l, c.Sound)
    (acc : SortedMap String Channel)
    (hAcc : ∀ {key c}, acc.get? key = some c → mapping.fold c.name = key ∧ c.Sound) :
    (∀ {key c}, (l.foldl (fileUnder mapping) acc).get? key = some c →
      mapping.fold c.name = key ∧ c.Sound) ∧
    ∀ P : Channel → Prop,
      (∀ c other : Channel, other.Sound → (P (c.absorb other) ↔ P c ∨ P other)) →
      ∀ key, (∃ c, (l.foldl (fileUnder mapping) acc).get? key = some c ∧ P c) ↔
        (∃ c, acc.get? key = some c ∧ P c) ∨ ∃ c ∈ l, mapping.fold c.name = key ∧ P c := by
  induction l generalizing acc with
  | nil => exact ⟨hAcc, fun P _ key => by simp⟩
  | cons c rest ih =>
      have hHead : c.Sound := hl c (List.mem_cons_self ..)
      have hTail : ∀ d ∈ rest, d.Sound := fun d hd => hl d (List.mem_cons_of_mem _ hd)
      have hNext : ∀ {key d}, (fileUnder mapping acc c).get? key = some d →
          mapping.fold d.name = key ∧ d.Sound := by
        intro key d hd
        rw [get?_fileUnder] at hd
        by_cases hKey : key = mapping.fold c.name
        · rw [if_pos hKey] at hd
          cases hOld : acc.get? (mapping.fold c.name) with
          | none =>
              rw [hOld] at hd
              cases hd
              exact ⟨hKey.symm, hHead⟩
          | some first =>
              rw [hOld] at hd
              cases hd
              obtain ⟨hFiled, hFirst⟩ := hAcc hOld
              refine ⟨?_, hFirst.absorb c⟩
              change mapping.fold (first.absorb c).name = key
              rw [(first.absorb_frame c).1, hFiled, hKey]
        · rw [if_neg hKey] at hd
          exact hAcc hd
      obtain ⟨hFiled, hAnswer⟩ := ih hTail (fileUnder mapping acc c) hNext
      refine ⟨hFiled, fun P hP key => ?_⟩
      have hStep : (∃ d, (fileUnder mapping acc c).get? key = some d ∧ P d) ↔
          (∃ d, acc.get? key = some d ∧ P d) ∨ (mapping.fold c.name = key ∧ P c) := by
        rw [get?_fileUnder]
        by_cases hKey : key = mapping.fold c.name
        · rw [if_pos hKey, hKey]
          cases acc.get? (mapping.fold c.name) with
          | none => simp
          | some first => simp [hP first c hHead]
        · simp [hKey, Ne.symm hKey]
      rw [List.foldl_cons, hAnswer P hP, hStep, or_assoc]
      simp

/-- All records that were filed: each stands under the key of its name, and an additive property
holds of what stands under a key exactly if it holds of a record that was filed there. -/
theorem collect_spec (mapping : CaseMapping) (l : List Channel) (hl : ∀ c ∈ l, c.Sound) :
    (∀ {key c}, (collect mapping l).get? key = some c → mapping.fold c.name = key ∧ c.Sound) ∧
    ∀ P : Channel → Prop,
      (∀ c other : Channel, other.Sound → (P (c.absorb other) ↔ P c ∨ P other)) →
      ∀ key, (∃ c, (collect mapping l).get? key = some c ∧ P c) ↔
        ∃ c ∈ l, mapping.fold c.name = key ∧ P c := by
  obtain ⟨hFiled, hAnswer⟩ := foldl_fileUnder mapping l hl SortedMap.empty (fun hc => by cases hc)
  rw [collect_eq_foldl]
  refine ⟨hFiled, fun P hP key => (hAnswer P hP key).trans ?_⟩
  simp

/-- A table that is filed anew is in order again. -/
theorem Sound.rekey {t : ChannelTable} (h : t.Sound) (mapping : CaseMapping) :
    (t.rekey mapping).Sound := by
  have hValues : ∀ c ∈ t.channels.values, c.Sound := by
    intro c hc
    obtain ⟨key, hKey⟩ := SortedMap.mem_values_iff.mp hc
    exact h.named hKey
  obtain ⟨hFiled, _⟩ := collect_spec mapping t.channels.values hValues
  exact ⟨fun hc => (hFiled hc).1, fun hc => (hFiled hc).2⟩

/-- What is held of a user under a key is what the channels whose names come under it held. -/
theorem holds_rekey {t : ChannelTable} (h : t.Sound) (mapping : CaseMapping)
    {q : ModeMask → Prop} (hq : ModeMask.Additive q) (key : String) (id : ClientId) :
    (t.rekey mapping).Holds key id q ↔
      ∃ old c, t.channels.get? old = some c ∧ mapping.fold c.name = key ∧ c.Holds id q := by
  have hValues : ∀ c ∈ t.channels.values, c.Sound := by
    intro c hc
    obtain ⟨old, hOld⟩ := SortedMap.mem_values_iff.mp hc
    exact h.named hOld
  obtain ⟨_, hAnswer⟩ := collect_spec mapping t.channels.values hValues
  refine (hAnswer (fun c => c.Holds id q) (fun c _ hOther => Channel.holds_absorb hq c hOther id)
    key).trans ?_
  simp only [SortedMap.mem_values_iff]
  constructor
  · rintro ⟨c, ⟨old, hOld⟩, hKey, hHolds⟩
    exact ⟨old, c, hOld, hKey, hHolds⟩
  · rintro ⟨old, c, hOld, hKey, hHolds⟩
    exact ⟨c, ⟨old, hOld⟩, hKey, hHolds⟩

end ChannelTable

end Irc
