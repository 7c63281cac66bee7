import Irc.Proofs.Network.Collection
/-! What exactly is left of a network when users leave. A channel loses the member records of those
who leave it and nothing else. The record of a user loses the channel's key, or goes if it was kept
for this membership alone, and the index loses the entries that lead to records that are gone. -/
namespace Irc

/-- The channel without the record of one member. -/
def Channel.without (c : Channel) (id : ClientId) : Channel :=
  { c with members := c.members.erase id }

namespace Channel

theorem without_of_not_member {c : Channel} {id : ClientId} (h : ¬c.members.contains id = true) :
    c.without id = c := by
  rw [without, SortedMap.erase_eq_self h]

theorem without_without (c : Channel) (id : ClientId) :
    (c.without id).without id = c.without id := by
  refine without_of_not_member fun hMember => ?_
  exact ((SortedMap.contains_erase ..).mp hMember).1 rfl

/-- Only the members change when some of them leave. -/
theorem foldl_without (c : Channel) (ids : List ClientId) :
    ids.foldl without c = { c with members := ids.foldl SortedMap.erase c.members } := by
  induction ids generalizing c with
  | nil => rfl
  | cons id rest ih => exact ih (c.without id)

/-- When all members have left, the rest of the record stays. -/
theorem foldl_without_members (c : Channel) :
    c.members.keys.foldl without c = { c with members := SortedMap.empty } := by
  rw [foldl_without, SortedMap.foldl_erase_keys]

end Channel

/-- No record is new, and of the index exactly the entries of the records that are gone are gone. -/
structure Roster.Prunes (r r' : Roster) : Prop where
  mapping : r'.mapping = r.mapping
  record : ∀ {id c'}, r'.get? id = some c' → ∃ c, r.get? id = some c
  index : ∀ key, r'.byNick.get? key = (r.byNick.get? key).filter fun id => (r'.get? id).isSome

namespace Roster.Prunes

variable {r r' r'' : Roster}

theorem trans (h : r.Prunes r') (h' : r'.Prunes r'') : r.Prunes r'' where
  mapping := h'.mapping.trans h.mapping
  record hc := by
    obtain ⟨c', hc'⟩ := h'.record hc
    exact h.record hc'
  index key := by
    rw [h'.index, h.index, Option.filter_filter]
    congr 1
    funext id
    rw [Bool.and_eq_right_iff_imp]
    intro hStays
    obtain ⟨c, hc⟩ := Option.isSome_iff_exists.mp hStays
    obtain ⟨c', hc'⟩ := h'.record hc
    rw [hc', Option.isSome_some]

/-- Neither the index nor which records there are depends on what a record tells. -/
theorem modify (h : r.Prunes r') (id : ClientId) (f : Client → Client) :
    r.Prunes (r'.modify id f) := by
  have hSome : ∀ i, ((r'.modify id f).get? i).isSome = (r'.get? i).isSome := by
    intro i
    rw [get?_modify]
    by_cases hi : i = id
    · rw [if_pos hi, hi, Option.isSome_map]
    · rw [if_neg hi]
  constructor
  case mapping => exact h.mapping
  case record =>
    intro i c hc
    have hThere := hSome i
    rw [hc, Option.isSome_some] at hThere
    obtain ⟨c', hc'⟩ := Option.isSome_iff_exists.mp hThere.symm
    exact h.record hc'
  case index =>
    intro key
    simp only [hSome]
    exact h.index key

/-- Nicknames lead where they led, as long as the record is there. -/
theorem findId? (h : r.Prunes r') (nick : String) :
    r'.findId? nick = (r.findId? nick).filter fun id => (r'.get? id).isSome := by
  rw [Roster.findId?, h.mapping]
  exact h.index _

end Roster.Prunes

namespace Roster

/-- A sound index has no entries for records that are gone. -/
theorem prunes_refl {r : Roster} (h : r.Sound) : r.Prunes r where
  mapping := rfl
  record hc := ⟨_, hc⟩
  index key := by
    cases hKey : r.byNick.get? key with
    | none => rfl
    | some id =>
        obtain ⟨c, hc, _⟩ := h.index hKey
        rw [Option.filter_some, hc, Option.isSome_some, if_pos rfl]

/-- A record goes together with its entry in the index. -/
theorem prunes_remove {r : Roster} (h : r.Sound) (id : ClientId) : r.Prunes (r.remove id).2 where
  mapping := mapping_remove r id
  record := by
    intro i c hc
    rw [get?_remove] at hc
    by_cases hi : i = id
    · rw [if_pos hi] at hc
      cases hc
    · rw [if_neg hi] at hc
      exact ⟨c, hc⟩
  index key := by
    rw [byNick_remove h]
    cases hKey : r.byNick.get? key with
    | none => rfl
    | some i =>
        obtain ⟨c, hc, _⟩ := h.index hKey
        rw [Option.filter_some, get?_remove]
        by_cases hi : i = id
        · rw [if_pos (congrArg some hi), if_pos hi]
          rfl
        · rw [if_neg fun he => hi (Option.some.inj he), if_neg hi, hc]
          rfl

end Roster

namespace Network

/-- Leaving a channel takes out no entry but that of a record that goes. -/
theorem prunes_leaveKey {n : Network} (h : n.roster.Sound) (key : String) (id : ClientId) :
    n.roster.Prunes (leaveKey key n id).roster := by
  have hLeft := (Roster.prunes_refl h).modify id
    fun c => { c with channels := c.channels.erase key }
  have hSound := h.modify id (f := fun c => { c with channels := c.channels.erase key })
    (fun _ => rfl) fun _ => rfl
  unfold leaveKey
  rw [forgetOrphan_eq]
  simp only
  split
  · exact hLeft.trans (Roster.prunes_remove hSound id)
  · exact hLeft

theorem prunes_part {n : Network} (h : n.roster.Sound) (channel : String) (id : ClientId) :
    n.roster.Prunes (n.part channel id).2.roster := by
  rcases n.part_cases channel id with ⟨_, he⟩ | ⟨c, _, he⟩
  · rw [he]
    exact Roster.prunes_refl h
  · rw [he]
    exact prunes_leaveKey (n := n.modifyChannel channel _) h _ id

/-- Any number of leaves take out no entry but those of records that go. -/
theorem prunes_foldl_part {n : Network} (hn : n.Consistent) (channel : String)
    (ids : List ClientId) :
    n.roster.Prunes (ids.foldl (fun n id => (n.part channel id).2) n).roster := by
  induction ids generalizing n with
  | nil => exact Roster.prunes_refl hn.roster
  | cons id rest ih =>
      have hFirst := (withdraws_part hn channel id).consistent hn
      exact (prunes_part hn.roster channel id).trans (ih hFirst)

/-- Leaving the network takes out no entry but that of the user's record. -/
theorem prunes_quit {n : Network} (h : n.roster.Sound) (id : ClientId) :
    n.roster.Prunes (n.quit id).2.roster := by
  cases hc : n.roster.get? id with
  | none =>
      unfold quit
      rw [hc]
      exact Roster.prunes_refl h
  | some client =>
      have hLeft := (Roster.prunes_refl h).modify id
        fun c => { c with channels := SortedMap.empty }
      have hSound := h.modify id (f := fun c => { c with channels := SortedMap.empty })
        (fun _ => rfl) fun _ => rfl
      rw [quit_of_get? hc]
      simp only [rosterAfterQuit]
      split
      · exact hLeft
      · exact hLeft.trans (Roster.prunes_remove hSound id)

/-- A PART takes the member out of this channel's record. -/
theorem channels_part (n : Network) (channel : String) (id : ClientId) :
    (n.part channel id).2.channels = n.channels.modify channel (·.without id) := by
  rcases n.part_cases channel id with ⟨hNone, he⟩ | ⟨c, _, he⟩
  · have hNone : n.channels.channels.get? (n.channels.key channel) = none := hNone
    rw [he, ChannelTable.modify, SortedMap.modify, hNone]
  · rw [he, leaveKey_eq]
    rfl

/-- When several users leave one channel, the others are as they were. -/
theorem get?_channels_foldl_part (n : Network) (channel : String) (ids : List ClientId)
    (key : String) :
    (ids.foldl (fun n id => (n.part channel id).2) n).channels.channels.get? key =
      if key = n.channels.key channel then
        (n.channels.get? channel).map fun c => ids.foldl Channel.without c
      else n.channels.channels.get? key := by
  induction ids generalizing n with
  | nil =>
      by_cases hKey : key = n.channels.key channel
      · rw [if_pos hKey, hKey]
        exact Option.map_id'.symm
      · rw [if_neg hKey]
        rfl
  | cons id rest ih =>
      have hHere : (n.channels.modify channel (·.without id)).key channel =
          n.channels.key channel := rfl
      rw [List.foldl_cons, ih, channels_part, hHere, ChannelTable.get?,
        ChannelTable.get?_modify, ChannelTable.get?_modify, hHere]
      by_cases hKey : key = n.channels.key channel
      · rw [if_pos hKey, if_pos hKey, if_pos rfl, Option.map_map]
        rfl
      · rw [if_neg hKey, if_neg hKey, if_neg hKey]

/-- What is left of a user's record when the user leaves the channel with a key. -/
def recordLeaving (own : Option ClientId) (key : String) (id : ClientId) (c : Client) :
    Option Client :=
  if own ≠ some id ∧ (c.channels.erase key).isEmpty = true ∧ c.keptAlive = false then none
  else some { c with channels := c.channels.erase key }

/-- The record goes exactly if it was kept for this membership alone. -/
theorem recordLeaving_eq_none_iff {n : Network} (hn : n.Consistent) (channel : String)
    {id : ClientId} {c : Client} (hc : n.roster.get? id = some c) :
    recordLeaving n.own (n.channels.key channel) id c = none ↔ n.Orphaned channel id := by
  have hOnly : (c.channels.erase (n.channels.key channel)).isEmpty = true ↔
      ∀ key, n.channels.HasMember key id → key = n.channels.key channel := by
    rw [SortedMap.isEmpty_iff]
    refine forall_congr' fun key => ?_
    rw [SortedMap.contains_erase, hn.linked, Roster.inChannel_iff_of_get? hc, not_and, not_imp_not]
  rw [recordLeaving, ite_eq_left_iff, hOnly]
  simp only [reduceCtorEq, imp_false, not_not]
  constructor
  · rintro ⟨hOwn, hOnlyHere, hKept⟩
    refine ⟨hOwn, fun d hd => ?_, hOnlyHere⟩
    rw [hc] at hd
    cases hd
    exact hKept
  · exact fun h => ⟨h.own, h.only, h.kept c hc⟩

theorem get?_forgetOrphan (n : Network) (id i : ClientId) :
    (n.forgetOrphan id).roster.get? i =
      if i = id ∧ n.isOrphan i = true then none else n.roster.get? i := by
  rw [forgetOrphan_eq]
  by_cases hi : i = id
  · subst hi
    by_cases hOrphan : n.isOrphan i = true
    · rw [if_pos hOrphan, if_pos ⟨rfl, hOrphan⟩, Roster.get?_remove, if_pos rfl]
    · rw [if_neg hOrphan, if_neg fun hBoth => hOrphan hBoth.2]
  · have hOther : ¬(i = id ∧ n.isOrphan i = true) := fun hBoth => hi hBoth.1
    rw [if_neg hOther]
    by_cases hOrphan : n.isOrphan id = true
    · rw [if_pos hOrphan, Roster.get?_remove, if_neg hi]
    · rw [if_neg hOrphan]

/-- Nobody else's record changes when a user leaves a channel. -/
theorem get?_leaveKey (key : String) (n : Network) (id i : ClientId) :
    (leaveKey key n id).roster.get? i =
      if i = id then (n.roster.get? i).bind (recordLeaving n.own key i) else n.roster.get? i := by
  let left := n.modifyClient id fun c => { c with channels := c.channels.erase key }
  have hLeft : left.roster.get? i = if i = id then
      (n.roster.get? id).map fun c => { c with channels := c.channels.erase key }
      else n.roster.get? i := Roster.get?_modify _ _ _ _
  show (left.forgetOrphan id).roster.get? i = _
  rw [get?_forgetOrphan]
  by_cases hi : i = id
  · subst hi
    rw [if_pos rfl] at hLeft ⊢
    simp only [true_and, isOrphan, hLeft]
    cases n.roster.get? i with
    | none => simp
    | some c =>
        have hOwn : left.own = n.own := rfl
        simp [recordLeaving, hOwn]
  · rw [if_neg fun hBoth => hi hBoth.1, hLeft, if_neg hi, if_neg hi]

/-- A PART in terms of records: that of the user loses the channel, or goes. -/
theorem get?_part {n : Network} {channel : String} (hKnown : n.channels.contains channel = true)
    (id i : ClientId) :
    (n.part channel id).2.roster.get? i =
      if i = id then (n.roster.get? i).bind (recordLeaving n.own (n.channels.key channel) i)
      else n.roster.get? i := by
  rcases n.part_cases channel id with ⟨hNone, _⟩ | ⟨c, _, he⟩
  · obtain ⟨c, hc⟩ := SortedMap.contains_iff.mp hKnown
    rw [show n.channel? channel = some c from hc] at hNone
    cases hNone
  · rw [he]
    exact get?_leaveKey _ (n.modifyChannel channel _) id i

/-- Everyone who leaves does so alone: what is left of a record does not depend on the others. -/
theorem get?_foldl_part {n : Network} {channel : String}
    (hKnown : n.channels.contains channel = true) {ids : List ClientId} (hDistinct : ids.Nodup)
    (i : ClientId) :
    (ids.foldl (fun n id => (n.part channel id).2) n).roster.get? i =
      if i ∈ ids then (n.roster.get? i).bind (recordLeaving n.own (n.channels.key channel) i)
      else n.roster.get? i := by
  induction ids generalizing n with
  | nil => rw [if_neg List.not_mem_nil, List.foldl_nil]
  | cons id rest ih =>
      obtain ⟨hFirst, hRest⟩ := List.nodup_cons.mp hDistinct
      have hTable := n.channels_part channel id
      have hStill : (n.part channel id).2.channels.contains channel = true := by
        rw [hTable]
        exact (SortedMap.contains_modify ..).mpr hKnown
      have hKey : (n.part channel id).2.channels.key channel = n.channels.key channel := by
        rw [hTable]
        rfl
      rw [List.foldl_cons, ih hStill hRest, hKey, (n.spares_part channel id).own,
        get?_part hKnown]
      by_cases hi : i = id
      · subst hi
        rw [if_neg hFirst, if_pos rfl, if_pos List.mem_cons_self]
      · simp only [hi, if_false, List.mem_cons, false_or]

/-- A user who leaves many channels is taken out of each of them. -/
theorem get?_foldl_dropMember (id : ClientId) (keys : List String) (n : Network) (key : String) :
    (keys.foldl (dropMember id) n).channels.channels.get? key =
      (n.channels.channels.get? key).map fun c =>
        if key ∈ keys.map n.channels.key then c.without id else c := by
  induction keys generalizing n with
  | nil => exact Option.map_id'.symm
  | cons k rest ih =>
      have hTable : (dropMember id n k).channels = n.channels.modify k (·.without id) := rfl
      have hKey : (n.channels.modify k (·.without id)).key = n.channels.key := rfl
      rw [List.foldl_cons, ih, hTable, hKey, ChannelTable.get?_modify, ChannelTable.get?]
      by_cases hFirst : key = n.channels.key k
      · rw [if_pos hFirst, ← hFirst, Option.map_map]
        congr 1
        funext c
        simp [hFirst, Channel.without_without]
      · simp [hFirst]

/-- A user who leaves the network is taken out of every channel, and channels are otherwise as
before. -/
theorem get?_channels_quit {n : Network} (hn : n.Consistent) (id : ClientId) (key : String) :
    (n.quit id).2.channels.channels.get? key =
      (n.channels.channels.get? key).map (·.without id) := by
  have hOther {c : Channel} (hc : n.channels.channels.get? key = some c)
      (hNot : ¬n.roster.InChannel id key) : c.without id = c := by
    refine Channel.without_of_not_member fun hMember => hNot ?_
    exact (hn.linked id key).mp ⟨c, hc, hMember⟩
  cases hId : n.roster.get? id with
  | none =>
      have hNowhere : ¬n.roster.InChannel id key := by
        rintro ⟨client, hClient, _⟩
        rw [hId] at hClient
        cases hClient
      unfold quit
      rw [hId]
      cases hc : n.channels.channels.get? key with
      | none => rfl
      | some c => rw [Option.map_some, hOther hc hNowhere]
  | some client =>
      rw [quit_of_get? hId]
      simp only
      rw [get?_foldl_dropMember]
      cases hc : n.channels.channels.get? key with
      | none => rfl
      | some c =>
          simp only [Option.map_some, Option.some.injEq]
          by_cases hIn : n.roster.InChannel id key
          · have hKey : key ∈ client.channels.keys :=
              SortedMap.mem_keys_iff.mpr ((Roster.inChannel_iff_of_get? hId key).mp hIn)
            rw [if_pos (List.mem_map.mpr ⟨key, hKey, hn.fold_of_inChannel hIn⟩)]
          · rw [hOther hc hIn, ite_self]

/-- The channels that a user leaves by leaving the network: those that have the user as a member,
each once. -/
theorem names_quit {n : Network} (hn : n.Consistent) (id : ClientId) :
    (n.quit id).1.Nodup ∧
    ∀ name, name ∈ (n.quit id).1 ↔
      ∃ key c, n.channels.channels.get? key = some c ∧ c.members.contains id = true ∧
        c.name = name := by
  cases hId : n.roster.get? id with
  | none =>
      unfold quit
      rw [hId]
      refine ⟨List.nodup_nil, fun name => iff_of_false List.not_mem_nil ?_⟩
      rintro ⟨key, c, hc, hMember, _⟩
      obtain ⟨client, hClient⟩ := hn.get?_of_hasMember ⟨c, hc, hMember⟩
      rw [hId] at hClient
      cases hClient
  | some client =>
      have hKeys (key : String) : key ∈ client.channels.keys ↔ n.channels.HasMember key id := by
        rw [SortedMap.mem_keys_iff, ← Roster.inChannel_iff_of_get? hId, hn.linked]
      -- The user's keys are folded, so each of them is looked up as it is.
      have hAt {key : String} (hKey : key ∈ client.channels.keys) :
          n.channel? key = n.channels.channels.get? key := by
        rw [channel?, ChannelTable.get?, ((hKeys key).mp hKey).fold_key hn.table]
      have hFiled {key name : String} (hKey : key ∈ client.channels.keys)
          (hName : (n.channel? key).map Channel.name = some name) :
          n.channels.mapping.fold name = key := by
        rw [hAt hKey, Option.map_eq_some_iff] at hName
        obtain ⟨c, hc, rfl⟩ := hName
        exact hn.table.filed hc
      rw [quit_of_get? hId]
      constructor
      · rw [List.Nodup, List.pairwise_filterMap]
        refine client.channels.nodup_keys.imp_of_mem ?_
        rintro key key' hKey hKey' hNe name hName _ hName' rfl
        exact hNe ((hFiled hKey hName).symm.trans (hFiled hKey' hName'))
      · intro name
        rw [List.mem_filterMap]
        constructor
        · rintro ⟨key, hKey, hName⟩
          rw [hAt hKey, Option.map_eq_some_iff] at hName
          obtain ⟨c, hc, rfl⟩ := hName
          have hMember := (ChannelTable.hasMember_iff_of_get? hc id).mp ((hKeys key).mp hKey)
          exact ⟨key, c, hc, hMember, rfl⟩
        · rintro ⟨key, c, hc, hMember, rfl⟩
          have hKey := (hKeys key).mpr ⟨c, hc, hMember⟩
          exact ⟨key, hKey, by rw [hAt hKey, hc, Option.map_some]⟩

end Network

end Irc
