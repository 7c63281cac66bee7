import Irc.Network.ChannelTable
import Irc.Proofs.CaseFolding
import Irc.Proofs.SortedMap
/-! What keeps the table of channels in order: a channel stands under the folded form of its own
name, and each of its member records names the user that it stands under. -/
namespace Irc

/-- Each member record names the user that it stands under. -/
def Channel.Sound (c : Channel) : Prop :=
  ∀ {id m}, c.members.get? id = some m → m.client = id

namespace Channel

theorem sound_new (name : String) : (new name).Sound := by
  intro id m hm
  cases hm

/-- Only the members matter for whether a record is sound. -/
theorem Sound.congr {c c' : Channel} (h : c.Sound) (hMembers : c'.members = c.members) :
    c'.Sound := by
  intro id m hm
  rw [hMembers] at hm
  exact h hm

theorem Sound.erase {c : Channel} (h : c.Sound) (id : ClientId) :
    { c with members := c.members.erase id }.Sound := by
  intro i m hm
  rw [SortedMap.get?_erase] at hm
  by_cases hi : i = id
  · rw [if_pos hi] at hm
    cases hm
  · rw [if_neg hi] at hm
    exact h hm

theorem Sound.insertIfNew {c : Channel} (h : c.Sound) (id : ClientId) :
    { c with members := c.members.insertIfNew id { client := id } }.Sound := by
  intro i m hm
  rw [SortedMap.get?_insertIfNew] at hm
  by_cases hi : i = id
  · rw [if_pos hi] at hm
    cases hOld : c.members.get? id with
    | none =>
        rw [hOld] at hm
        cases hm
        exact hi.symm
    | some old =>
        rw [hOld] at hm
        cases hm
        rw [hi]
        exact h hOld
  · rw [if_neg hi] at hm
    exact h hm

end Channel

namespace ChannelTable

structure Sound (t : ChannelTable) : Prop where
  filed : ∀ {key c}, t.channels.get? key = some c → t.mapping.fold c.name = key
  named : ∀ {key c}, t.channels.get? key = some c → c.Sound

/-- The channel under the key has a record of the user. -/
def HasMember (t : ChannelTable) (key : String) (id : ClientId) : Prop :=
  ∃ c, t.channels.get? key = some c ∧ c.members.contains id = true

theorem hasMember_iff_of_get? {t : ChannelTable} {key : String} {c : Channel}
    (h : t.channels.get? key = some c) (id : ClientId) :
    t.HasMember key id ↔ c.members.contains id = true := by
  constructor
  · rintro ⟨c', hc', hMember⟩
    rw [h] at hc'
    cases hc'
    exact hMember
  · exact fun hMember => ⟨c, h, hMember⟩

/-- The record that the channel under a key has of a user. -/
def memberAt? (t : ChannelTable) (key : String) (id : ClientId) : Option Member :=
  (t.channels.get? key).bind fun c => c.member? id

/-- To have a member is to have a record of one. -/
theorem hasMember_iff_memberAt? (t : ChannelTable) (key : String) (id : ClientId) :
    t.HasMember key id ↔ ∃ m, t.memberAt? key id = some m := by
  unfold HasMember memberAt?
  cases t.channels.get? key with
  | none => simp
  | some c => simp [Channel.member?, SortedMap.contains_iff]

/-- A key under which a channel stands folds to itself. -/
theorem Sound.fold_key {t : ChannelTable} (h : t.Sound) {key : String} {c : Channel}
    (hc : t.channels.get? key = some c) : t.key key = key := by
  have hKey := h.filed hc
  rw [← hKey]
  exact CaseMapping.fold_idem t.mapping c.name

/-- Members are recorded under folded keys only. -/
theorem HasMember.fold_key {t : ChannelTable} (h : t.Sound) {key : String} {id : ClientId}
    (hMember : t.HasMember key id) : t.key key = key := by
  obtain ⟨c, hc, _⟩ := hMember
  exact h.fold_key hc

/-- Creating a channel that is there changes nothing. -/
theorem get?_create (t : ChannelTable) (name key : String) :
    (t.create name).channels.get? key =
      if key = t.key name then some ((t.get? name).getD (Channel.new name))
      else t.channels.get? key :=
  SortedMap.get?_insertIfNew _ _ _ _

theorem Sound.create {t : ChannelTable} (h : t.Sound) (name : String) : (t.create name).Sound := by
  have hGet : ∀ {key c}, (t.create name).channels.get? key = some c →
      t.channels.get? key = some c ∨ (key = t.key name ∧ c = Channel.new name) := by
    intro key c hc
    rw [get?_create] at hc
    by_cases hKey : key = t.key name
    · rw [if_pos hKey, get?] at hc
      cases hOld : t.channels.get? (t.key name) with
      | none =>
          rw [hOld] at hc
          exact Or.inr ⟨hKey, (Option.some.inj hc).symm⟩
      | some old =>
          rw [hOld] at hc
          rw [hKey, hOld]
          exact Or.inl hc
    · rw [if_neg hKey] at hc
      exact Or.inl hc
  constructor
  · intro key c hc
    rcases hGet hc with hc | ⟨hKey, rfl⟩
    · exact h.filed hc
    · exact hKey.symm
  · intro key c hc
    rcases hGet hc with hc | ⟨_, rfl⟩
    · exact h.named hc
    · exact Channel.sound_new name

theorem hasMember_create (t : ChannelTable) (name key : String) (id : ClientId) :
    (t.create name).HasMember key id ↔ t.HasMember key id := by
  unfold HasMember
  rw [get?_create]
  by_cases hKey : key = t.key name
  · rw [if_pos hKey, get?, hKey]
    cases t.channels.get? (t.key name) with
    | none => simp [Channel.new]
    | some old => rfl
  · rw [if_neg hKey]

/-- Only the channel with the name is changed. -/
theorem get?_modify (t : ChannelTable) (name key : String) (f : Channel → Channel) :
    (t.modify name f).channels.get? key =
      if key = t.key name then (t.get? name).map f else t.channels.get? key :=
  SortedMap.get?_modify _ _ _ _

/-- Created if need be and then changed. -/
theorem get?_create_modify (t : ChannelTable) (name key : String) (f : Channel → Channel) :
    ((t.create name).modify name f).channels.get? key =
      if key = t.key name then some (f (t.getOrNew name)) else t.channels.get? key := by
  have hKey : (t.create name).key name = t.key name := rfl
  rw [get?_modify, hKey, get?, hKey, get?_create, get?_create, if_pos rfl]
  by_cases hHere : key = t.key name
  · rw [if_pos hHere, if_pos hHere]
    rfl
  · rw [if_neg hHere, if_neg hHere, if_neg hHere]

/-- A change that keeps the name and leaves member records in order. -/
theorem Sound.modify {t : ChannelTable} (h : t.Sound) (name : String) {f : Channel → Channel}
    (hName : ∀ c, (f c).name = c.name) (hSound : ∀ c : Channel, c.Sound → (f c).Sound) :
    (t.modify name f).Sound := by
  have hGet : ∀ {key c}, (t.modify name f).channels.get? key = some c →
      ∃ old, t.channels.get? key = some old ∧ (c = old ∨ c = f old) := by
    intro key c hc
    rw [get?_modify] at hc
    by_cases hKey : key = t.key name
    · rw [if_pos hKey, Option.map_eq_some_iff] at hc
      obtain ⟨old, hOld, rfl⟩ := hc
      exact ⟨old, hKey ▸ hOld, Or.inr rfl⟩
    · rw [if_neg hKey] at hc
      exact ⟨c, hc, Or.inl rfl⟩
  constructor
  · intro key c hc
    obtain ⟨old, hOld, rfl | rfl⟩ := hGet hc
    · exact h.filed hOld
    · rw [hName]
      exact h.filed hOld
  · intro key c hc
    obtain ⟨old, hOld, rfl | rfl⟩ := hGet hc
    · exact h.named hOld
    · exact hSound old (h.named hOld)

theorem hasMember_modify (t : ChannelTable) (name key : String) (f : Channel → Channel)
    (id : ClientId) :
    (t.modify name f).HasMember key id ↔
      if key = t.key name then ∃ c, t.get? name = some c ∧ (f c).members.contains id = true
      else t.HasMember key id := by
  unfold HasMember
  rw [get?_modify]
  by_cases hKey : key = t.key name
  · cases t.get? name <;> simp [hKey]
  · simp [hKey]

/-- Taking a member out of one channel takes nobody else out, and out of no other channel. -/
theorem hasMember_modify_erase (t : ChannelTable) (name key : String) (id i : ClientId) :
    (t.modify name fun c => { c with members := c.members.erase id }).HasMember key i ↔
      t.HasMember key i ∧ ¬(key = t.key name ∧ i = id) := by
  rw [hasMember_modify]
  by_cases hKey : key = t.key name
  · rw [if_pos hKey, hKey]
    simp only [SortedMap.contains_erase, HasMember, get?, true_and]
    constructor
    · rintro ⟨c, hc, hNe, hMember⟩
      exact ⟨⟨c, hc, hMember⟩, hNe⟩
    · rintro ⟨⟨c, hc, hMember⟩, hNe⟩
      exact ⟨c, hc, hNe, hMember⟩
  · simp [hKey]

/-- Taking one user out of a channel leaves the records of the others alone. -/
theorem memberAt?_modify_erase (t : ChannelTable) (name key : String) {id i : ClientId}
    (hi : i ≠ id) :
    (t.modify name fun c => { c with members := c.members.erase id }).memberAt? key i =
      t.memberAt? key i := by
  unfold memberAt?
  rw [get?_modify]
  by_cases hKey : key = t.key name
  · rw [if_pos hKey, hKey, get?]
    cases t.channels.get? (t.key name) with
    | none => rfl
    | some c => exact SortedMap.get?_erase_of_ne c.members hi
  · rw [if_neg hKey]

/-- Joining a channel, which is created for it if need be, adds this one membership. -/
theorem hasMember_create_modify_insert (t : ChannelTable) (name key : String) (id i : ClientId) :
    ((t.create name).modify name fun c =>
        { c with members := c.members.insertIfNew id { client := id } }).HasMember key i ↔
      t.HasMember key i ∨ (key = t.key name ∧ i = id) := by
  have hMapping : (t.create name).key name = t.key name := rfl
  rw [hasMember_modify, hMapping]
  by_cases hKey : key = t.key name
  · have hGet : (t.create name).get? name = some ((t.get? name).getD (Channel.new name)) := by
      rw [get?, get?_create, hMapping, if_pos rfl]
    have hAt : (t.create name).channels.get? key =
        some ((t.get? name).getD (Channel.new name)) := by
      rw [hKey]
      exact hGet
    rw [if_pos hKey, ← hasMember_create t name key i, hasMember_iff_of_get? hAt, hGet]
    simp [hKey, or_comm]
  · rw [if_neg hKey, hasMember_create]
    simp [hKey]

/-- A table stays in order when a channel goes. -/
theorem Sound.remove {t : ChannelTable} (h : t.Sound) (name : String) : (t.remove name).Sound := by
  have hGet : ∀ {key c}, (t.remove name).channels.get? key = some c →
      t.channels.get? key = some c := by
    intro key c hc
    rw [ChannelTable.remove, SortedMap.get?_erase] at hc
    by_cases hKey : key = t.key name
    · rw [if_pos hKey] at hc
      cases hc
    · rwa [if_neg hKey] at hc
  exact ⟨fun hc => h.filed (hGet hc), fun hc => h.named (hGet hc)⟩

/-- With a channel go its memberships, and no others. -/
theorem hasMember_remove (t : ChannelTable) (name key : String) (id : ClientId) :
    (t.remove name).HasMember key id ↔ t.HasMember key id ∧ key ≠ t.key name := by
  unfold HasMember remove
  rw [SortedMap.get?_erase]
  by_cases hKey : key = t.key name <;> simp [hKey]

theorem sound_new (mapping : CaseMapping) : (new mapping).Sound where
  filed hc := by cases hc
  named hc := by cases hc

theorem Sound.clear {t : ChannelTable} : t.clear.Sound where
  filed hc := by cases hc
  named hc := by cases hc

theorem not_hasMember_clear (t : ChannelTable) (key : String) (id : ClientId) :
    ¬t.clear.HasMember key id := by
  rintro ⟨c, hc, _⟩
  cases hc

end ChannelTable

end Irc
