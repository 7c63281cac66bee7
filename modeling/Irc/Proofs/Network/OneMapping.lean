import Irc.Proofs.Hostmask
import Irc.Proofs.Network.Merging
/-! A network compares nicknames and channel names by one mapping, of which it has three copies: its
own, that of the roster and that of the channel table. Nothing that is done to users and channels
touches a copy, and a change of the mapping changes all three. So names that fold alike lead to the
same user and to the same channel. -/
namespace Irc

/-- Nicknames that fold alike lead to the same user. -/
theorem Roster.findId?_congr (r : Roster) {a b : String}
    (h : r.mapping.fold a = r.mapping.fold b) : r.findId? a = r.findId? b := by
  rw [Roster.findId?, Roster.findId?, CaseMapping.fold_nickOf_congr h]

namespace Network

/-- The copies of the mapping: that of the network, of the roster and of the channel table. -/
def mappings (n : Network) : CaseMapping × CaseMapping × CaseMapping :=
  (n.mapping, n.roster.mapping, n.channels.mapping)

/-- Users and channels are filed under the mapping by which the network compares names. -/
structure OneMapping (n : Network) : Prop where
  roster : n.roster.mapping = n.mapping
  table : n.channels.mapping = n.mapping

theorem OneMapping.congr {n n' : Network} (h : n.OneMapping) (same : n'.mappings = n.mappings) :
    n'.OneMapping := by
  obtain ⟨hOwn, hCopies⟩ := Prod.mk.inj same
  obtain ⟨hRoster, hTable⟩ := Prod.mk.inj hCopies
  constructor
  · rw [hRoster, hOwn, h.roster]
  · rw [hTable, hOwn, h.table]

namespace OneMapping

variable {n : Network} {a b : String}

/-- Nicknames that the network takes for one lead to the same user. -/
theorem findId?_congr (hn : n.OneMapping) (h : n.fold a = n.fold b) :
    n.findId? a = n.findId? b := by
  apply Roster.findId?_congr
  rw [hn.roster]
  exact h

/-- A nickname is ours in every spelling, or in none. -/
theorem isOwn_congr (hn : n.OneMapping) (h : n.fold a = n.fold b) : n.isOwn a = n.isOwn b := by
  rw [isOwn, isOwn, hn.findId?_congr h]

theorem key_congr (hn : n.OneMapping) (h : n.fold a = n.fold b) :
    n.channels.key a = n.channels.key b := by
  rw [ChannelTable.key, ChannelTable.key, hn.table]
  exact h

/-- Names that fold alike lead to the same channel. -/
theorem channel?_congr (hn : n.OneMapping) (h : n.fold a = n.fold b) :
    n.channel? a = n.channel? b := by
  rw [channel?, channel?, ChannelTable.get?, ChannelTable.get?, hn.key_congr h]

/-- In whatever spelling a channel is named, it is changed in the same way. -/
theorem modifyChannel_congr (hn : n.OneMapping) (h : n.fold a = n.fold b)
    (f : Channel → Channel) : n.modifyChannel a f = n.modifyChannel b f := by
  rw [modifyChannel, modifyChannel, ChannelTable.modify, ChannelTable.modify, hn.key_congr h]

/-- A member is found in every spelling of the channel and of the nickname. -/
theorem member?_congr {c d : String} (hn : n.OneMapping) (hChannel : n.fold a = n.fold b)
    (hNick : n.fold c = n.fold d) : n.member? a c = n.member? b d := by
  rw [member?, member?, hn.findId?_congr hNick, hn.channel?_congr hChannel]

end OneMapping

/-- What each of several steps leaves alone, all of them together leave alone. -/
theorem mappings_foldl {α : Type} {f : Network → α → Network}
    (h : ∀ n a, (f n a).mappings = n.mappings) (l : List α) (n : Network) :
    (l.foldl f n).mappings = n.mappings := by
  induction l generalizing n with
  | nil => rfl
  | cons a rest ih => exact (ih _).trans (h n a)

theorem mappings_getOrCreateClient (n : Network) (mask : String) :
    (n.getOrCreateClient mask).2.mappings = n.mappings := by
  have hRoster := n.roster.mapping_getOrCreate mask
  simpa [mappings, getOrCreateClient] using hRoster

/-- A JOIN changes no copy of the mapping. -/
theorem mappings_join (n : Network) (channel mask : String) :
    (n.join channel mask).2.mappings = n.mappings := mappings_getOrCreateClient n mask

theorem mappings_forgetOrphan (n : Network) (id : ClientId) :
    (n.forgetOrphan id).mappings = n.mappings := by
  unfold forgetOrphan
  split
  · simp [mappings]
  · rfl

theorem mappings_leaveKey (key : String) (n : Network) (id : ClientId) :
    (leaveKey key n id).mappings = n.mappings := mappings_forgetOrphan (n.modifyClient id _) id

theorem mappings_part (n : Network) (channel : String) (id : ClientId) :
    (n.part channel id).2.mappings = n.mappings := by
  rcases n.part_cases channel id with ⟨_, he⟩ | ⟨c, _, he⟩
  · rw [he]
  · rw [he]
    exact mappings_leaveKey _ (n.modifyChannel channel _) id

theorem mappings_removeChannel (n : Network) (channel : String) :
    (n.removeChannel channel).2.mappings = n.mappings := by
  unfold removeChannel
  cases n.channel? channel with
  | none => rfl
  | some c =>
      exact mappings_foldl (mappings_leaveKey _) _ { n with channels := n.channels.remove channel }

theorem mappings_quit (n : Network) (id : ClientId) : (n.quit id).2.mappings = n.mappings := by
  cases h : n.roster.get? id with
  | none =>
      unfold quit
      rw [h]
  | some client =>
      have hTable := (foldl_dropMember id client.channels.keys n).2.1
      have hRoster := (n.trims_rosterAfterQuit id).mapping
      simp [quit_of_get? h, mappings, hTable, hRoster]

theorem mappings_rename (n : Network) (old new : String) :
    (n.rename old new).2.mappings = n.mappings := by
  have hEvicted : ∀ id, (n.evict id new).mappings = n.mappings := by
    intro id
    unfold evict
    split
    · split
      · rfl
      · exact n.mappings_quit _
    · rfl
  rcases n.rename_cases old new with ⟨_, he⟩ | ⟨id, _, he⟩
  · rw [he]
  · have hRoster := (n.evict id new).roster.mapping_rename old new
    rw [he, ← hEvicted id]
    simpa [mappings] using hRoster

theorem mappings_setOwn (n : Network) (mask : String) :
    (n.setOwn mask).2.mappings = n.mappings := by
  rcases n.setOwn_cases mask with ⟨_, he⟩ | ⟨c, _, he⟩
  · rw [he]
    exact n.mappings_getOrCreateClient mask
  · rw [he, mappings_getOrCreateClient]
    split
    · rfl
    · exact n.mappings_rename _ _

theorem mappings_setKeptAlive (n : Network) (nick : String) (keep : Bool) :
    (n.setKeptAlive nick keep).2.mappings = n.mappings := by
  unfold setKeptAlive
  cases (n.client? nick).map Client.id with
  | none => rfl
  | some id =>
      cases keep with
      | true => rfl
      | false => exact mappings_forgetOrphan (n.modifyClient id _) id

/-- No operation on users and channels changes a copy. -/
theorem mappings_apply (n : Network) (op : Op) : (n.apply op).mappings = n.mappings := by
  cases op with
  | getOrCreateClient mask => exact n.mappings_getOrCreateClient mask
  | createChannel name => rfl
  | setOwn mask => exact n.mappings_setOwn mask
  | join channel mask => exact n.mappings_join channel mask
  | part channel id => exact n.mappings_part channel id
  | removeChannel channel => exact n.mappings_removeChannel channel
  | quit id => exact n.mappings_quit id
  | rename old new => exact n.mappings_rename old new
  | setKeptAlive nick keep => exact n.mappings_setKeptAlive nick keep
  | forgetOrphan id => exact n.mappings_forgetOrphan id
  | clear => rfl

theorem mappings_mergeClients (n : Network) (pair : ClientId × ClientId) :
    (n.mergeClients pair.1 pair.2).mappings = n.mappings := by
  unfold mergeClients
  generalize (if n.own = some pair.2 then (pair.2, pair.1) else (pair.1, pair.2)) = sides
  have hRoster := mapping_rosterWithout n sides.1 sides.2
  have hRemoved : ({ n with roster := n.rosterWithout sides.1 sides.2 } : Network).mappings =
      n.mappings := by
    simpa [mappings] using hRoster
  simp only
  cases ((n.roster.reindex sides.1).remove sides.2).1 with
  | none => exact hRemoved
  | some info =>
      exact (mappings_foldl (f := passOn sides.2 sides.1) (fun _ _ => rfl) info.channels.keys
        { n with roster := n.rosterWithout sides.1 sides.2 }).trans hRemoved

/-- A change of the mapping reaches all three copies. -/
theorem OneMapping.setMapping {n : Network} (hn : n.OneMapping) (m : CaseMapping) :
    (n.setMapping m).OneMapping := by
  by_cases hSame : m = n.mapping
  · rw [hSame, setMapping_self]
    exact hn
  · have hRecast : (n.recast m).OneMapping := ⟨rfl, rfl⟩
    rw [setMapping_eq hSame]
    exact hRecast.congr (mappings_foldl mappings_mergeClients _ _)

end Network

end Irc
