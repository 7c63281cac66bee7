import Irc.Proofs.Network.ChannelTable
/-! Changes of a channel's record that leave its name and its members alone. Mode changes alter
what is known of a member, and list replies only lists. -/
namespace Irc

namespace Channel

/-- The name is kept, no member comes or goes, and member records stay in order. -/
structure Keeps (c c' : Channel) : Prop where
  name : c'.name = c.name
  sound : c.Sound → c'.Sound
  member : ∀ id, c'.members.contains id = true ↔ c.members.contains id = true

theorem Keeps.refl (c : Channel) : c.Keeps c := ⟨rfl, fun h => h, fun _ => Iff.rfl⟩

theorem Keeps.trans {c c' c'' : Channel} (h : c.Keeps c') (h' : c'.Keeps c'') : c.Keeps c'' where
  name := h'.name.trans h.name
  sound hSound := h'.sound (h.sound hSound)
  member id := (h'.member id).trans (h.member id)

theorem keeps_of_members {c c' : Channel} (hName : c'.name = c.name)
    (hMembers : c'.members = c.members) : c.Keeps c' where
  name := hName
  sound h := h.congr hMembers
  member id := by rw [hMembers]

/-- What is noted of one member changes. -/
theorem keeps_modify (c : Channel) (id : ClientId) {f : Member → Member}
    (hf : ∀ m, (f m).client = m.client) :
    c.Keeps { c with members := c.members.modify id f } where
  name := rfl
  sound h := by
    intro i m hm
    rw [SortedMap.get?_modify] at hm
    by_cases hi : i = id
    · rw [if_pos hi, Option.map_eq_some_iff] at hm
      obtain ⟨old, hOld, rfl⟩ := hm
      rw [hf, hi]
      exact h hOld
    · rw [if_neg hi] at hm
      exact h hm
  member i := SortedMap.contains_modify _ _ _ _

/-- A member record may be replaced by one of the same user. -/
theorem keeps_insert {c : Channel} {id : ClientId} {m m' : Member}
    (hm : c.members.get? id = some m) (hClient : m'.client = m.client) :
    c.Keeps { c with members := c.members.insert id m' } := by
  constructor
  · rfl
  · intro h i r hr
    rw [SortedMap.get?_insert] at hr
    by_cases hi : i = id
    · rw [if_pos hi] at hr
      cases hr
      rw [hClient, hi]
      exact h hm
    · rw [if_neg hi] at hr
      exact h hr
  · intro i
    rw [SortedMap.contains_insert]
    refine or_iff_right_of_imp ?_
    rintro rfl
    exact SortedMap.contains_of_get? hm

/-- One change of modes may alter what a member is, but not who is one. -/
theorem keeps_applyChange? {find : String → Option ClientId} {setter : String} {time : Int}
    {c c' : Channel} {change : ModeChange} (h : applyChange? find setter time c change = some c') :
    c.Keeps c' := by
  unfold applyChange? at h
  split at h
  case h_1 =>
    cases h
    exact keeps_of_members rfl rfl
  case h_2 =>
    split at h
    all_goals
      cases h
      exact keeps_of_members rfl rfl
  case h_3 =>
    split at h
    all_goals
      cases h
      exact keeps_of_members rfl rfl
  case h_4 =>
    split at h
    · cases h
      exact keeps_of_members rfl rfl
    · unfold removeEntries? at h
      simp only at h
      split at h
      · cases h
        exact keeps_of_members rfl rfl
      · cases h
  case h_5 =>
    split at h
    · cases h
    · split at h
      · cases h
      · next hm =>
          cases h
          exact keeps_insert hm rfl
  case h_6 => cases h
  case h_7 => cases h

/-- Any number of mode changes alter what members are, but not who is one. -/
theorem keeps_applyChanges (find : String → Option ClientId) (setter : String) (time : Int)
    (c : Channel) (changes : List ModeChange) :
    c.Keeps (applyChanges find setter time c changes).2 := by
  induction changes generalizing c with
  | nil => exact Keeps.refl c
  | cons change rest ih =>
      unfold applyChanges
      cases h : applyChange? find setter time c change with
      | none => exact ih c
      | some c' => exact (keeps_applyChange? h).trans (ih c')

/-- Receiving an entry is about lists only. -/
theorem keeps_receiveEntry (c : Channel) (letter : Char) (e : ListEntry) :
    c.Keeps (c.receiveEntry letter e) := by
  unfold receiveEntry
  by_cases h : c.receiving.contains letter = true
  · rw [if_pos h]
    exact keeps_of_members rfl rfl
  · rw [if_neg h]
    exact keeps_of_members rfl rfl

/-- The end of a reply is about lists only. -/
theorem keeps_foldl_endReply (letters : List Char) (c : Channel) :
    c.Keeps (letters.foldl endReply c) := by
  induction letters generalizing c with
  | nil => exact Keeps.refl c
  | cons letter rest ih =>
      have hOne : c.Keeps (c.endReply letter) := keeps_of_members rfl rfl
      exact hOne.trans (ih _)

/-- A whole line of a reply keeps the name and the members. -/
theorem keeps_listLine? {c : Channel} {dialect : ListDialect} {numeric : ListNumeric}
    {params : List String} {outcome : ListOutcome} {c' : Channel}
    (h : c.listLine? dialect numeric params = some (outcome, c')) : c.Keeps c' := by
  unfold listLine? at h
  cases hParts : listLineParts? numeric params with
  | none =>
      rw [hParts] at h
      cases h
  | some parts =>
      rw [hParts] at h
      cases hPart : numeric.part with
      | entry =>
          simp only [hPart] at h
          split at h
          · cases h
          · cases h
            exact keeps_receiveEntry _ _ _
      | finish =>
          simp only [hPart] at h
          cases h
          exact keeps_foldl_endReply _ _

end Channel

namespace ChannelTable

variable {t : ChannelTable} {name : String}

/-- Such a change of one channel changes no membership anywhere. -/
theorem hasMember_modify_of_keeps (t : ChannelTable) (name : String) {f : Channel → Channel}
    (hKeeps : ∀ c : Channel, c.Keeps (f c)) (key : String) (id : ClientId) :
    (t.modify name f).HasMember key id ↔ t.HasMember key id := by
  rw [hasMember_modify]
  by_cases hKey : key = t.key name
  · rw [if_pos hKey, hKey]
    simp only [(hKeeps _).member]
    rfl
  · rw [if_neg hKey]

theorem get?_put (t : ChannelTable) (name : String) (c : Channel) (key : String) :
    (t.put name c).channels.get? key =
      if key = t.key name then some c else t.channels.get? key := SortedMap.get?_insert _ _ _ _

theorem Sound.getOrNew (h : t.Sound) (name : String) :
    (t.getOrNew name).Sound ∧ t.key (t.getOrNew name).name = t.key name := by
  unfold ChannelTable.getOrNew
  cases hOld : t.get? name with
  | none => exact ⟨Channel.sound_new name, rfl⟩
  | some d => exact ⟨h.named hOld, h.filed hOld⟩

theorem contains_getOrNew (t : ChannelTable) (name : String) (id : ClientId) :
    (t.getOrNew name).members.contains id = true ↔ t.HasMember (t.key name) id := by
  unfold ChannelTable.getOrNew
  cases hOld : t.get? name with
  | none =>
      refine iff_of_false (by simp [Channel.new]) ?_
      rintro ⟨d, hd, _⟩
      rw [get?, hd] at hOld
      cases hOld
  | some d => exact (hasMember_iff_of_get? hOld id).symm

/-- A channel that is put back after such changes leaves the table in order. -/
theorem Sound.put (h : t.Sound) {c : Channel} (hKeeps : (t.getOrNew name).Keeps c) :
    (t.put name c).Sound := by
  obtain ⟨hSound, hName⟩ := h.getOrNew name
  have hEach : ∀ {key d}, (t.put name c).channels.get? key = some d →
      t.key d.name = key ∧ d.Sound := by
    intro key d hd
    rw [get?_put] at hd
    by_cases hHere : key = t.key name
    · rw [if_pos hHere] at hd
      cases hd
      rw [hKeeps.name, hName]
      exact ⟨hHere.symm, hKeeps.sound hSound⟩
    · rw [if_neg hHere] at hd
      exact ⟨h.filed hd, h.named hd⟩
  exact ⟨fun hd => (hEach hd).1, fun hd => (hEach hd).2⟩

/-- Putting it back changes no membership either. -/
theorem hasMember_put {c : Channel} (hKeeps : (t.getOrNew name).Keeps c) (key : String)
    (id : ClientId) : (t.put name c).HasMember key id ↔ t.HasMember key id := by
  by_cases hHere : key = t.key name
  · have hAt : (t.put name c).channels.get? key = some c := by
      rw [get?_put, if_pos hHere]
    rw [hasMember_iff_of_get? hAt, hKeeps.member, contains_getOrNew, hHere]
  · unfold HasMember
    rw [get?_put, if_neg hHere]

end ChannelTable

end Irc
