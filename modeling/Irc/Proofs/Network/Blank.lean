import Irc.Network
/-! A network of which nothing is known. Nobody and nothing is found in it, and what changes known
records changes nothing. -/
namespace Irc

namespace Network

/-- Nothing is known of users and channels, nor of who we are. -/
structure Blank (n : Network) : Prop where
  users : n.roster.clients = SortedMap.empty ∧ n.roster.byNick = SortedMap.empty
  channels : n.channels.channels = SortedMap.empty
  own : n.own = none

/-- Nothing is known after the end of a connection. -/
theorem blank_clear (n : Network) : n.clear.Blank := ⟨⟨rfl, rfl⟩, rfl, rfl⟩

namespace Blank

variable {n : Network}

theorem of_eq {n' : Network} (h : n.Blank) (hSame : n' = n) : n'.Blank := hSame ▸ h

theorem findId? (h : n.Blank) (nick : String) : n.findId? nick = none := by
  rw [Network.findId?, Roster.findId?, h.users.2, SortedMap.get?_empty]

theorem client? (h : n.Blank) (nick : String) : n.client? nick = none := by
  have hNobody : n.roster.findId? nick = none := h.findId? nick
  rw [Network.client?, Roster.find?, hNobody, Option.bind_none]

theorem channel? (h : n.Blank) (name : String) : n.channel? name = none := by
  rw [Network.channel?, ChannelTable.get?, h.channels, SortedMap.get?_empty]

theorem contains (h : n.Blank) (name : String) : n.channels.contains name = false :=
  congrArg Option.isSome (h.channel? name)

theorem isOwn (h : n.Blank) (nick : String) : n.isOwn nick = false := by
  rw [Network.isOwn, h.own, Option.isSome_none, Bool.false_and]

theorem modifyChannel (h : n.Blank) (name : String) (f : Channel → Channel) :
    n.modifyChannel name f = n := by
  have hSame : n.channels.channels.modify (n.channels.key name) f = n.channels.channels := by
    rw [h.channels, SortedMap.modify, SortedMap.get?_empty]
  rw [Network.modifyChannel, ChannelTable.modify, hSame]

/-- There is nothing to file anew. -/
theorem setMapping (h : n.Blank) (mapping : CaseMapping) : (n.setMapping mapping).Blank := by
  have hUsers : n.roster.clients.values = [] := by rw [h.users.1]; rfl
  have hChannels : n.channels.channels.values = [] := by rw [h.channels]; rfl
  have hIndex : n.roster.rekey mapping =
      ([], { n.roster with mapping := mapping, byNick := SortedMap.empty }) := by
    rw [Roster.rekey, hUsers]
    rfl
  have hTable : n.channels.rekey mapping = ⟨mapping, SortedMap.empty⟩ := by
    rw [ChannelTable.rekey, hChannels]
    rfl
  unfold Network.setMapping
  split
  · exact h
  · rw [hIndex, hTable]
    refine ⟨⟨?_, rfl⟩, rfl, h.own⟩
    simp only [List.foldl_nil, h.users.1]
    rfl

end Blank

/-- A channel that someone comes into has a record. -/
theorem channel?_join_ne_none (n : Network) (channel mask : String) :
    (n.join channel mask).2.channel? channel ≠ none := by
  simp [join, modifyClient, Network.modifyChannel, createChannel, getOrCreateClient,
    Network.channel?, ChannelTable.get?, ChannelTable.modify, ChannelTable.create,
    ChannelTable.key, SortedMap.get?_modify, SortedMap.get?_insertIfNew]

/-- A channel that is put into the table is known from then on. -/
theorem not_blank_put (n : Network) (channel : String) (c : Channel) :
    ¬({ n with channels := n.channels.put channel c } : Network).Blank := by
  intro h
  have hNone := h.channel? channel
  simp [Network.channel?, ChannelTable.get?, ChannelTable.put, ChannelTable.key] at hNone

/-- Being named gives us an identity. -/
theorem not_blank_setOwn {n : Network} (h : n.Blank) (mask : String) :
    ¬(n.setOwn mask).2.Blank := by
  intro hBlank
  have hNone := hBlank.own
  simp [setOwn, ownClient?, h.own] at hNone

end Network

end Irc
