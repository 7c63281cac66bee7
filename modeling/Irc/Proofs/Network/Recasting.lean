import Irc.Proofs.Network.Absorption
import Irc.Proofs.Network.Operation
import Irc.Proofs.Network.Reindexing
/-! A change of the case mapping when no two nicknames come to fold alike. Channels are filed
anew under the names that they had, but the keys that users have are only folded once more.
Both ways lead to one key when the new mapping is the coarser one; in the other direction a key
may have lost what the name still tells. -/
namespace Irc.Network

def refold (m : CaseMapping) (c : Client) : Client :=
  { c with channels := SortedSet.ofList (c.channels.keys.map m.fold) }

/-- The network after both sides have been filed anew, and before users are merged. -/
def recast (n : Network) (m : CaseMapping) : Network :=
  { n with
    mapping := m
    roster := { (n.roster.rekey m).2 with clients := n.roster.clients.mapValues (refold m) }
    channels := n.channels.rekey m }

theorem setMapping_self (n : Network) : n.setMapping n.mapping = n := if_pos rfl

/-- A change of the mapping: everyone is filed anew, and then those who collide are merged. -/
theorem setMapping_eq {n : Network} {m : CaseMapping} (h : m ≠ n.mapping) :
    n.setMapping m =
      (n.roster.rekey m).1.foldl (fun n pair => n.mergeClients pair.1 pair.2) (n.recast m) :=
  if_neg h

theorem get?_recast (n : Network) (m : CaseMapping) (id : ClientId) :
    (n.recast m).roster.get? id = (n.roster.get? id).map (refold m) :=
  SortedMap.get?_mapValues _ _ _

/-- Users take their old keys along, folded once more. -/
theorem inChannel_recast (n : Network) (m : CaseMapping) (id : ClientId) (key : String) :
    (n.recast m).roster.InChannel id key ↔ ∃ old, n.roster.InChannel id old ∧ m.fold old = key := by
  unfold Roster.InChannel
  rw [get?_recast]
  cases n.roster.get? id with
  | none => simp
  | some c => simp [refold, SortedMap.mem_keys_iff]

/-- Channels are filed by their names, and are united where these fold alike. -/
theorem holds_recast {n : Network} (hn : n.Consistent) (m : CaseMapping) {q : ModeMask → Prop}
    (hq : ModeMask.Additive q) (key : String) (id : ClientId) :
    (n.recast m).channels.Holds key id q ↔
      ∃ old c, n.channels.channels.get? old = some c ∧ m.fold c.name = key ∧ c.Holds id q :=
  ChannelTable.holds_rekey hn.table m hq key id

/-- A channel has the members of all channels that were united in it. -/
theorem hasMember_recast {n : Network} (hn : n.Consistent) (m : CaseMapping) (key : String)
    (id : ClientId) :
    (n.recast m).channels.HasMember key id ↔
      ∃ old c, n.channels.channels.get? old = some c ∧ m.fold c.name = key ∧
        c.members.contains id = true := by
  rw [ChannelTable.hasMember_iff_holds, holds_recast hn m ModeMask.additive_true]
  simp only [Channel.holds_true_iff]

/-- The roster is in order after it was filed anew. -/
theorem sound_recast {n : Network} (hSound : n.roster.Sound) (m : CaseMapping) :
    (n.recast m).roster.Sound where
  identity := by
    intro id c hc
    rw [get?_recast, Option.map_eq_some_iff] at hc
    obtain ⟨old, hOld, rfl⟩ := hc
    obtain ⟨hId, hLt⟩ := hSound.identity hOld
    exact ⟨hId, hLt⟩
  index := by
    intro key id hId
    obtain ⟨⟨c, hc, hKey⟩, _⟩ := (Roster.byNick_rekey hSound m key id).mp hId
    exact ⟨refold m c, by rw [get?_recast, hc]; rfl, hKey⟩

/-- Every channel with a member gets the same key from its name as from its old key. -/
def FoldsAgree (n : Network) (m : CaseMapping) : Prop :=
  ∀ old c id, n.channels.channels.get? old = some c → c.members.contains id = true →
    m.fold old = m.fold c.name

/-- Under the mapping that is in use, name and key tell the same. -/
theorem foldsAgree_self {n : Network} (hn : n.Consistent) : n.FoldsAgree n.mapping := by
  intro old c id hc _
  rw [← hn.tableMapping, hn.table.filed hc]
  exact hn.table.fold_key hc

/-- Name and key tell the same under every coarser mapping. -/
theorem foldsAgree_of_coarsens {n : Network} (hn : n.Consistent) {m : CaseMapping}
    (h : n.mapping.Coarsens m) : n.FoldsAgree m := by
  intro old c id hc _
  rw [← hn.table.filed hc, hn.tableMapping]
  exact CaseMapping.fold_fold_of_coarsens h c.name

/-- It is enough that each new key is the refolded key of some channel that the user is in: then
it is that of the channel itself. -/
theorem foldsAgree_of_inChannel {n : Network} (hn : n.Consistent) {m : CaseMapping}
    (h : ∀ old c id, n.channels.channels.get? old = some c → c.members.contains id = true →
      (n.recast m).roster.InChannel id (m.fold c.name)) : n.FoldsAgree m := by
  intro old c id hc hMember
  obtain ⟨other, hIn, hKey⟩ := (inChannel_recast n m id _).mp (h old c id hc hMember)
  obtain ⟨d, hd, _⟩ := (hn.linked id other).mpr hIn
  rw [← hn.table.filed hd] at hKey
  rw [← hn.table.filed hc]
  exact CaseMapping.fold_fold_eq_of_fold_fold_eq hKey

/-- Where name and key lead to the same place, channels and users still agree on who is where. -/
theorem linked_recast {n : Network} (hn : n.Consistent) {m : CaseMapping} (h : n.FoldsAgree m)
    (id : ClientId) (key : String) :
    (n.recast m).channels.HasMember key id ↔ (n.recast m).roster.InChannel id key := by
  rw [hasMember_recast hn, inChannel_recast]
  constructor
  · rintro ⟨old, c, hc, rfl, hMember⟩
    exact ⟨old, (hn.linked id old).mp ⟨c, hc, hMember⟩, h old c id hc hMember⟩
  · rintro ⟨old, hIn, rfl⟩
    obtain ⟨c, hc, hMember⟩ := (hn.linked id old).mpr hIn
    exact ⟨old, c, hc, (h old c id hc hMember).symm, hMember⟩

/-- After everyone is filed anew, both sides agree exactly if name and key of each channel do. -/
theorem consistent_recast_iff {n : Network} (hn : n.Consistent) (m : CaseMapping) :
    (n.recast m).Consistent ↔ n.FoldsAgree m := by
  constructor
  · intro h
    refine foldsAgree_of_inChannel hn fun old c id hc hMember => ?_
    exact (h.linked id _).mp ((hasMember_recast hn m _ id).mpr ⟨old, c, hc, rfl, hMember⟩)
  · intro h
    exact {
      rosterMapping := rfl
      tableMapping := rfl
      roster := sound_recast hn.roster m
      table := hn.table.rekey m
      linked := linked_recast hn h }

/-- Quitting takes a user out of the channels whose keys the user has, whether or not there are
further channels that list the user. -/
theorem hasMember_quit {n : Network} {id : ClientId} {client : Client}
    (h : n.roster.get? id = some client) (key : String) (i : ClientId) :
    (n.quit id).2.channels.HasMember key i ↔ n.channels.HasMember key i ∧
      ¬(i = id ∧ ∃ k, n.roster.InChannel id k ∧ key = n.channels.key k) := by
  obtain ⟨_, _, _, _, hMember⟩ := foldl_dropMember id client.channels.keys n
  rw [quit_of_get? h]
  simp only [hMember, SortedMap.mem_keys_iff, Roster.inChannel_iff_of_get? h]

/-- A user who quits is gone from every channel just if the two sides have stayed together. -/
theorem quit_recast_iff {n : Network} (hn : n.Consistent) (m : CaseMapping) :
    (∀ id key, ¬((n.recast m).quit id).2.channels.HasMember key id) ↔ n.FoldsAgree m := by
  constructor
  · intro h
    refine foldsAgree_of_inChannel hn fun old c id hc hMember => ?_
    obtain ⟨client, hClient⟩ := hn.get?_of_hasMember ⟨c, hc, hMember⟩
    have hRecast : (n.recast m).roster.get? id = some (refold m client) := by
      rw [get?_recast, hClient]
      rfl
    have hNew := (hasMember_recast hn m (m.fold c.name) id).mpr ⟨old, c, hc, rfl, hMember⟩
    have hGone := h id (m.fold c.name)
    rw [hasMember_quit hRecast, not_and, not_not] at hGone
    obtain ⟨_, k, hIn, hKey⟩ := hGone hNew
    obtain ⟨_, _, rfl⟩ := (inChannel_recast n m id k).mp hIn
    rw [hKey, show (n.recast m).channels.key = m.fold from rfl, CaseMapping.fold_idem]
    exact hIn
  · intro h id key hMember
    have hQuit := withdraws_quit ((consistent_recast_iff hn m).mpr h) id
    exact ((hQuit.hasMember key id).mp hMember).2 rfl

/-- No two users have nicknames that fold alike. -/
def NicksApart (n : Network) (m : CaseMapping) : Prop :=
  ∀ i j c d, n.roster.get? i = some c → n.roster.get? j = some d →
    m.fold c.nick = m.fold d.nick → i = j

/-- Where no two nicknames collide, there is nothing to merge. -/
theorem setMapping_of_nicksApart {n : Network} (hn : n.Consistent) {m : CaseMapping}
    (hApart : n.NicksApart m) (hm : m ≠ n.mapping) : n.setMapping m = n.recast m := by
  have hNone : (n.roster.rekey m).1 = [] := by
    refine List.eq_nil_iff_forall_not_mem.mpr ?_
    rintro ⟨a, d⟩ hPair
    obtain ⟨c, hc, ⟨⟨e, he, hSame⟩, _⟩, hNe⟩ := (Roster.mem_rekey_iff hn.roster m a d).mp hPair
    exact hNe (hApart a d e c he hc hSame)
  rw [setMapping_eq hm, hNone]
  rfl

/-- A network without users takes any mapping. -/
theorem consistent_new_setMapping (m : CaseMapping) : (new.setMapping m).Consistent := by
  by_cases hm : m = new.mapping
  · rw [hm, setMapping_self]
    exact consistent_new
  · rw [setMapping_of_nicksApart consistent_new (fun i j c d hc => by cases hc) hm]
    exact (consistent_recast_iff consistent_new m).mpr fun old c id hc => by cases hc

/-- A single user collides with nobody. -/
theorem nicksApart_of_nextId {n : Network} (hn : n.Consistent) (h : n.roster.nextId ≤ 1)
    (m : CaseMapping) : n.NicksApart m := by
  intro i j c d hc hd _
  have hi := Nat.lt_one_iff.mp (Nat.lt_of_lt_of_le (hn.roster.identity hc).2 h)
  have hj := Nat.lt_one_iff.mp (Nat.lt_of_lt_of_le (hn.roster.identity hd).2 h)
  rw [hi, hj]

/-- A change of the case mapping that makes no two nicknames fold alike files every channel under
the new key of its name and loses no membership on that side. The users' side agrees with it, and
a user who quits is gone from all channels, exactly if every channel with a member gets the same
key from its name as from its old key. -/
theorem setMapping_consistent_iff {n : Network} (hn : n.Consistent) (m : CaseMapping)
    (hApart : n.NicksApart m) :
    (∀ key c, (n.setMapping m).channels.channels.get? key = some c → m.fold c.name = key) ∧
    (∀ key id, (n.setMapping m).channels.HasMember key id ↔
      ∃ old c, n.channels.channels.get? old = some c ∧ m.fold c.name = key ∧
        c.members.contains id = true) ∧
    ((n.setMapping m).Consistent ↔ n.FoldsAgree m) ∧
    ((∀ id key, ¬((n.setMapping m).quit id).2.channels.HasMember key id) ↔ n.FoldsAgree m) := by
  by_cases hm : m = n.mapping
  · subst hm
    rw [setMapping_self]
    have hFiled : ∀ key c, n.channels.channels.get? key = some c → n.mapping.fold c.name = key := by
      intro key c hc
      rw [← hn.tableMapping]
      exact hn.table.filed hc
    refine ⟨hFiled, fun key id => ?_, iff_of_true hn (foldsAgree_self hn),
      iff_of_true (fun id key hMember => ?_) (foldsAgree_self hn)⟩
    · constructor
      · rintro ⟨c, hc, hMember⟩
        exact ⟨key, c, hc, hFiled key c hc, hMember⟩
      · rintro ⟨old, c, hc, rfl, hMember⟩
        rw [hFiled old c hc]
        exact ⟨c, hc, hMember⟩
    · exact (((withdraws_quit hn id).hasMember key id).mp hMember).2 rfl
  · rw [setMapping_of_nicksApart hn hApart hm]
    exact ⟨fun key c hc => (hn.table.rekey m).filed hc, hasMember_recast hn m,
      consistent_recast_iff hn m, quit_recast_iff hn m⟩

/-- A channel whose name has no letters on which the mappings differ. -/
theorem setMapping_consistent_of_plain_name :
    (new.join "#a" "x!u@h").2.Consistent ∧ (new.join "#a" "x!u@h").2.NicksApart .ascii ∧
      ((new.join "#a" "x!u@h").2.setMapping .ascii).Consistent := by
  have hn := consistent_new.join "#a" "x!u@h"
  have hApart := nicksApart_of_nextId hn (by decide) .ascii
  have hKeys : ∀ e ∈ (new.join "#a" "x!u@h").2.channels.channels.entries,
      CaseMapping.ascii.fold e.1 = CaseMapping.ascii.fold e.2.name := by decide
  refine ⟨hn, hApart, (setMapping_consistent_iff hn .ascii hApart).2.2.1.mpr ?_⟩
  intro old c id hc _
  exact hKeys (old, c) (SortedMap.mem_entries_iff.mpr hc)

/-- Under `rfc1459` the user has the key `#a{`, and no channel is filed under that in `ascii`. -/
theorem quit_leaves_member_of_bracketed_name :
    (new.join "#a[" "x!u@h").2.Consistent ∧ (new.join "#a[" "x!u@h").2.NicksApart .ascii ∧
      (((new.join "#a[" "x!u@h").2.setMapping .ascii).quit 0).2.channels.HasMember "#a[" 0 := by
  have hn := consistent_new.join "#a[" "x!u@h"
  have hMember : ((((new.join "#a[" "x!u@h").2.setMapping .ascii).quit 0).2.channels.channels.get?
      "#a[").any (fun c => c.members.contains 0) = true := by decide
  exact ⟨hn, nicksApart_of_nextId hn (by decide) .ascii, (Option.any_eq_true _ _).mp hMember⟩

end Irc.Network
