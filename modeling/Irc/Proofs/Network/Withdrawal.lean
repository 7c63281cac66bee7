import Irc.Proofs.Network.Consistent
/-! Operations that take memberships away: a user leaves one channel, a channel is forgotten
with everyone in it, a user leaves the network. Each of them is described by the memberships that
go; what they do to the records of the users is the same for all. -/
namespace Irc

namespace Network

/-- What one network has of another one after some channels have been dropped and some
memberships, those in the dropped channels among them, have gone. -/
structure Withdraws (dropped : String → Prop) (gone : String → ClientId → Prop)
    (n n' : Network) : Prop where
  frame : n' = { n with roster := n'.roster, channels := n'.channels }
  mapping : n'.channels.mapping = n.channels.mapping
  trims : Roster.Trims n.own n.roster n'.roster
  table : n.channels.Sound → n'.channels.Sound
  known : ∀ key, n'.channels.channels.contains key = true ↔
    n.channels.channels.contains key = true ∧ ¬dropped key
  hasMember : ∀ key id, n'.channels.HasMember key id ↔ n.channels.HasMember key id ∧ ¬gone key id
  inChannel : ∀ key id, n'.roster.InChannel id key ↔ n.roster.InChannel id key ∧ ¬gone key id

namespace Withdraws

variable {dropped dropped' : String → Prop} {gone gone' : String → ClientId → Prop}
  {n n' n'' : Network}

/-- Taking memberships away on both sides leaves the records consistent. -/
theorem consistent (h : Withdraws dropped gone n n') (hn : n.Consistent) : n'.Consistent where
  rosterMapping := by
    rw [h.trims.mapping, hn.rosterMapping, h.frame]
  tableMapping := by
    rw [h.mapping, hn.tableMapping, h.frame]
  roster := h.trims.sound hn.roster
  table := h.table hn.table
  linked id key := by
    rw [h.hasMember, h.inChannel, hn.linked]

theorem own_eq (h : Withdraws dropped gone n n') : n'.own = n.own := by rw [h.frame]

theorem mapping_eq (h : Withdraws dropped gone n n') : n'.mapping = n.mapping := by rw [h.frame]

theorem key_eq (h : Withdraws dropped gone n n') : n'.channels.key = n.channels.key := by
  funext name
  rw [ChannelTable.key, h.mapping]
  rfl

theorem trans (h : Withdraws dropped gone n n') (h' : Withdraws dropped' gone' n' n'') :
    Withdraws (fun key => dropped key ∨ dropped' key) (fun key id => gone key id ∨ gone' key id)
      n n'' where
  frame := by rw [h'.frame, h.frame]
  mapping := h'.mapping.trans h.mapping
  trims := by
    have hTrims := h'.trims
    rw [h.own_eq] at hTrims
    exact h.trims.trans hTrims
  table hSound := h'.table (h.table hSound)
  known key := by rw [h'.known, h.known, not_or, and_assoc]
  hasMember key id := by rw [h'.hasMember, h.hasMember, not_or, and_assoc]
  inChannel key id := by rw [h'.inChannel, h.inChannel, not_or, and_assoc]

theorem congr (h : Withdraws dropped gone n n') (hDropped : ∀ key, dropped key ↔ dropped' key)
    (hGone : ∀ key id, gone key id ↔ gone' key id) : Withdraws dropped' gone' n n' :=
  { h with
    known := fun key => by rw [h.known, hDropped]
    hasMember := fun key id => by rw [h.hasMember, hGone]
    inChannel := fun key id => by rw [h.inChannel, hGone] }

end Withdraws

/-- Nothing goes where nothing is to go. -/
theorem withdraws_self {n : Network} (hn : n.Consistent) {dropped : String → Prop}
    {gone : String → ClientId → Prop}
    (hDropped : ∀ key, n.channels.channels.contains key = true → ¬dropped key)
    (hGone : ∀ key id, n.channels.HasMember key id → ¬gone key id) :
    Withdraws dropped gone n n where
  frame := rfl
  mapping := rfl
  trims := Roster.Trims.refl _ _
  table h := h
  known key := (and_iff_left_of_imp (hDropped key)).symm
  hasMember key id := (and_iff_left_of_imp (hGone key id)).symm
  inChannel key id :=
    (and_iff_left_of_imp fun hIn => hGone key id ((hn.linked id key).mpr hIn)).symm

/-- A PART from an unknown channel does nothing; otherwise the channel loses the member and the user
the channel. -/
theorem part_cases (n : Network) (channel : String) (id : ClientId) :
    (n.channel? channel = none ∧ n.part channel id = (none, n)) ∨
    (∃ c, n.channel? channel = some c ∧ n.part channel id =
      (c.member? id, leaveKey (n.channels.key channel)
        (n.modifyChannel channel fun c => { c with members := c.members.erase id }) id)) := by
  unfold part
  cases h : n.channel? channel with
  | none => exact Or.inl ⟨rfl, rfl⟩
  | some c => exact Or.inr ⟨c, rfl, rfl⟩

/-- A channel that is not known has no members. -/
theorem not_hasMember_of_channel? {n : Network} {channel : String}
    (h : n.channel? channel = none) (id : ClientId) :
    ¬n.channels.HasMember (n.channels.key channel) id := by
  rintro ⟨c, hc, _⟩
  rw [Network.channel?, ChannelTable.get?, hc] at h
  cases h

/-- A PART takes away one membership. -/
theorem withdraws_part {n : Network} (hn : n.Consistent) (channel : String) (id : ClientId) :
    Withdraws (fun _ => False) (fun key i => key = n.channels.key channel ∧ i = id)
      n (n.part channel id).2 := by
  rcases n.part_cases channel id with ⟨hNone, he⟩ | ⟨c, _, he⟩
  · rw [he]
    refine withdraws_self hn (fun _ _ h => h) ?_
    rintro key i hMember ⟨rfl, _⟩
    exact not_hasMember_of_channel? hNone i hMember
  · rw [he]
    have hFrame := leaveKey_eq (n.channels.key channel)
      (n.modifyChannel channel fun c => { c with members := c.members.erase id }) id
    constructor
    case frame => simp only; rw [hFrame]; rfl
    case mapping => simp only; rw [hFrame]; rfl
    case trims => exact trims_leaveKey _ (n.modifyChannel channel _) id
    case table =>
      intro hSound
      simp only
      rw [hFrame]
      exact hSound.modify channel (fun _ => rfl) (fun _ hc => hc.erase id)
    case known =>
      intro key
      simp only
      rw [hFrame, not_false_eq_true, and_true]
      exact SortedMap.contains_modify _ _ _ _
    case hasMember =>
      intro key i
      simp only
      rw [hFrame]
      exact n.channels.hasMember_modify_erase channel key id i
    case inChannel =>
      intro key i
      rw [and_comm (a := key = _)]
      exact inChannel_leaveKey _ (n.modifyChannel channel _) id i key

/-- Several users leave a channel. -/
theorem withdraws_foldl_part {n : Network} (hn : n.Consistent) (channel : String)
    (ids : List ClientId) :
    Withdraws (fun _ => False) (fun key i => key = n.channels.key channel ∧ i ∈ ids)
      n (ids.foldl (fun n id => (n.part channel id).2) n) := by
  induction ids generalizing n with
  | nil =>
      refine withdraws_self hn (fun _ _ h => h) ?_
      rintro key i _ ⟨_, hi⟩
      cases hi
  | cons id rest ih =>
      have hOne := withdraws_part hn channel id
      have hRest := ih (hOne.consistent hn)
      rw [hOne.key_eq] at hRest
      refine (hOne.trans hRest).congr (fun _ => or_self _ ▸ Iff.rfl) fun key i => ?_
      rw [← and_or_left, List.mem_cons]

/-- A channel is forgotten: its key is no longer in use, and the memberships in it go. -/
theorem withdraws_removeChannel {n : Network} (hn : n.Consistent) (channel : String) :
    Withdraws (fun key => key = n.channels.key channel)
      (fun key _ => key = n.channels.key channel) n (n.removeChannel channel).2 := by
  unfold removeChannel
  cases h : n.channel? channel with
  | none =>
      refine withdraws_self hn ?_ ?_
      · rintro key hKnown rfl
        obtain ⟨c, hc⟩ := SortedMap.contains_iff.mp hKnown
        rw [Network.channel?, ChannelTable.get?, hc] at h
        cases h
      · rintro key i hMember rfl
        exact not_hasMember_of_channel? h i hMember
  | some c =>
      obtain ⟨hFrame, hTrims, hIn⟩ := foldl_leaveKey (n.channels.key channel) c.members.keys
        { n with channels := n.channels.remove channel }
      constructor
      case frame => simp only; rw [hFrame]
      case mapping => simp only; rw [hFrame]; rfl
      case trims => exact hTrims
      case table =>
        intro hSound
        simp only
        rw [hFrame]
        exact hSound.remove channel
      case known =>
        intro key
        simp only
        rw [hFrame]
        exact (SortedMap.contains_erase _ _ _).trans and_comm
      case hasMember =>
        intro key i
        simp only
        rw [hFrame]
        exact n.channels.hasMember_remove channel key i
      case inChannel =>
        intro key i
        simp only
        rw [hIn]
        refine and_congr_right fun hOld => not_congr (and_iff_right_of_imp ?_)
        rintro rfl
        have hMember := (hn.linked i _).mpr hOld
        exact SortedMap.mem_keys_iff.mpr ((ChannelTable.hasMember_iff_of_get? h i).mp hMember)

def dropMember (id : ClientId) (n : Network) (key : String) : Network :=
  n.modifyChannel key fun c => { c with members := c.members.erase id }

/-- The roster after a user has quit: without the user's memberships, and without the user unless
the record stays. -/
def rosterAfterQuit (n : Network) (id : ClientId) : Roster :=
  let left := n.roster.modify id fun c => { c with channels := SortedMap.empty }
  if n.own = some id then left else (left.remove id).2

/-- A user is taken out of the channels with some keys. -/
theorem foldl_dropMember (id : ClientId) (keys : List String) (n : Network) :
    keys.foldl (dropMember id) n = { n with channels := (keys.foldl (dropMember id) n).channels } ∧
    (keys.foldl (dropMember id) n).channels.mapping = n.channels.mapping ∧
    (n.channels.Sound → (keys.foldl (dropMember id) n).channels.Sound) ∧
    (∀ key, (keys.foldl (dropMember id) n).channels.channels.contains key = true ↔
      n.channels.channels.contains key = true) ∧
    ∀ key i, (keys.foldl (dropMember id) n).channels.HasMember key i ↔
      n.channels.HasMember key i ∧ ¬(i = id ∧ ∃ k ∈ keys, key = n.channels.key k) := by
  induction keys generalizing n with
  | nil => exact ⟨rfl, rfl, fun h => h, fun _ => Iff.rfl, by simp⟩
  | cons k rest ih =>
      obtain ⟨hFrame, hMapping, hSound, hKnown, hMember⟩ := ih (dropMember id n k)
      simp only [List.foldl_cons]
      refine ⟨?_, hMapping, fun h => hSound (h.modify k (fun _ => rfl) fun _ hc => hc.erase id),
        fun key => (hKnown key).trans (SortedMap.contains_modify _ _ _ _), fun key i => ?_⟩
      · rw [hFrame]
        rfl
      · rw [hMember]
        have hFirst : (dropMember id n k).channels.HasMember key i ↔ _ :=
          n.channels.hasMember_modify_erase k key id i
        have hKey : (dropMember id n k).channels.key = n.channels.key := rfl
        rw [hKey]
        constructor
        · rintro ⟨h, hRest⟩
          obtain ⟨hOld, hNot⟩ := hFirst.mp h
          refine ⟨hOld, ?_⟩
          rintro ⟨hi, k', hk', he⟩
          rcases List.mem_cons.mp hk' with rfl | hk'
          · exact hNot ⟨he, hi⟩
          · exact hRest ⟨hi, k', hk', he⟩
        · rintro ⟨hOld, hNone⟩
          refine ⟨hFirst.mpr ⟨hOld, fun h => hNone ⟨h.2, k, List.mem_cons_self .., h.1⟩⟩, ?_⟩
          rintro ⟨hi, k', hk', he⟩
          exact hNone ⟨hi, k', List.mem_cons_of_mem _ hk', he⟩

/-- What is left when a known user leaves the network. -/
theorem quit_of_get? {n : Network} {id : ClientId} {client : Client}
    (h : n.roster.get? id = some client) :
    n.quit id =
      (client.channels.keys.filterMap fun key => (n.channel? key).map Channel.name,
        { n with
          roster := n.rosterAfterQuit id
          channels := (client.channels.keys.foldl (dropMember id) n).channels }) := by
  have hFrame := (foldl_dropMember id client.channels.keys n).1
  unfold dropMember at hFrame
  unfold quit rosterAfterQuit dropMember
  simp only [h]
  rw [hFrame]
  by_cases hOwn : n.own = some id
  · simp [modifyClient, hOwn]
  · simp [modifyClient, hOwn]

/-- Of the records, at most that of the user goes. -/
theorem trims_rosterAfterQuit (n : Network) (id : ClientId) :
    Roster.Trims n.own n.roster (n.rosterAfterQuit id) := by
  have hTrims := Roster.trims_of_drop (f := fun c => { c with channels := SortedMap.empty })
    n.own n.roster id (fun _ => rfl) (fun _ => rfl) (fun _ => rfl) (!decide (n.own = some id))
    (fun hDrop => by simpa using hDrop) (fun hStay _ _ => Or.inl (by simpa using hStay))
  unfold rosterAfterQuit
  by_cases hOwn : n.own = some id
  · simpa [hOwn] using hTrims
  · simpa [hOwn] using hTrims

/-- The user is in no channel any more, and the others are where they were. -/
theorem inChannel_rosterAfterQuit (n : Network) (id i : ClientId) (key : String) :
    (n.rosterAfterQuit id).InChannel i key ↔ n.roster.InChannel i key ∧ i ≠ id := by
  unfold rosterAfterQuit
  by_cases hOwn : n.own = some id
  · simp only [if_pos hOwn, Roster.inChannel_modify_clear]
  · simp only [if_neg hOwn, Roster.inChannel_remove, Roster.inChannel_modify_clear, and_assoc,
      and_self]

/-- Other records stay as they are, and the record of a user who is not ourselves goes. -/
theorem get?_quit (n : Network) (id : ClientId) :
    (∀ i, i ≠ id → (n.quit id).2.roster.get? i = n.roster.get? i) ∧
    (n.own ≠ some id → (n.quit id).2.roster.get? id = none) := by
  cases h : n.roster.get? id with
  | none =>
      have hSame : (n.quit id).2 = n := by
        unfold quit
        rw [h]
      rw [hSame]
      exact ⟨fun _ _ => rfl, fun _ => h⟩
  | some client =>
      rw [quit_of_get? h]
      simp only [rosterAfterQuit]
      by_cases hOwn : n.own = some id
      · rw [if_pos hOwn]
        refine ⟨fun i hi => ?_, fun hNot => absurd hOwn hNot⟩
        rw [Roster.get?_modify, if_neg hi]
      · rw [if_neg hOwn]
        refine ⟨fun i hi => ?_, fun _ => ?_⟩
        · rw [Roster.get?_remove, if_neg hi, Roster.get?_modify, if_neg hi]
        · rw [Roster.get?_remove, if_pos rfl]

/-- Leaving the network takes away all memberships of one user. -/
theorem withdraws_quit {n : Network} (hn : n.Consistent) (id : ClientId) :
    Withdraws (fun _ => False) (fun _ i => i = id) n (n.quit id).2 := by
  cases h : n.roster.get? id with
  | none =>
      unfold quit
      rw [h]
      refine withdraws_self hn (fun _ _ hFalse => hFalse) ?_
      rintro key i hMember rfl
      obtain ⟨c, hc⟩ := hn.get?_of_hasMember hMember
      rw [h] at hc
      cases hc
  | some client =>
      obtain ⟨_, hMapping, hSound, hKnown, hMember⟩ := foldl_dropMember id client.channels.keys n
      rw [quit_of_get? h]
      constructor
      case frame => rfl
      case mapping => exact hMapping
      case trims => exact n.trims_rosterAfterQuit id
      case table => exact hSound
      case known => exact fun key => (hKnown key).trans (by simp)
      case hasMember =>
        intro key i
        rw [hMember]
        refine and_congr_right fun hOld => not_congr (and_iff_left_of_imp ?_)
        -- The keys that the user has are those of all channels that list the user.
        rintro rfl
        have hIn := (hn.linked i key).mp hOld
        refine ⟨key, SortedMap.mem_keys_iff.mpr ?_, (hn.fold_of_inChannel hIn).symm⟩
        exact (Roster.inChannel_iff_of_get? h key).mp hIn
      case inChannel => exact fun key i => n.inChannel_rosterAfterQuit id i key

end Network

end Irc
