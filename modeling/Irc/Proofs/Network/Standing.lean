import Irc.Proofs.Network.Keeping
import Irc.Proofs.Network.Operation
/-! What most changes of a network leave alone. The terms that the server has announced stay as
they are whatever is done to users and channels; and while a user's reasons to be kept stay as they
are, and every membership with them, it makes no difference what else is noted. -/
namespace Irc

/-- What a user's record is kept for: someone's request, and the channels. -/
def Client.hold (c : Client) : Bool × SortedSet String := (c.keptAlive, c.channels)

namespace Roster

def hold? (r : Roster) (id : ClientId) : Option (Bool × SortedSet String) :=
  (r.get? id).map Client.hold

/-- A note about a user is no reason to be kept. -/
theorem hold?_modify (r : Roster) (id i : ClientId) {f : Client → Client}
    (hKept : ∀ c, (f c).keptAlive = c.keptAlive) (hChannels : ∀ c, (f c).channels = c.channels) :
    (r.modify id f).hold? i = r.hold? i := by
  have hHold : Client.hold ∘ f = Client.hold := funext fun c => Prod.ext (hKept c) (hChannels c)
  rw [hold?, get?_modify]
  by_cases hi : i = id
  · rw [if_pos hi, hi, Option.map_map, hHold, hold?]
  · rw [if_neg hi, hold?]

/-- Whether all records have a reason depends on the reasons alone. -/
theorem Tidy.congr {own : Option ClientId} {r r' : Roster} (h : r.Tidy own)
    (hHold : ∀ id, r'.hold? id = r.hold? id) : r'.Tidy own := by
  intro id c' hc'
  have hSame := hHold id
  rw [hold?, hc', hold?, Option.map_some, eq_comm, Option.map_eq_some_iff] at hSame
  obtain ⟨c, hc, hEq⟩ := hSame
  have hChannels : c.channels = c'.channels := congrArg Prod.snd hEq
  have hKept : c.keptAlive = c'.keptAlive := congrArg Prod.fst hEq
  rw [← hChannels, ← hKept]
  exact h hc

end Roster

namespace Network

/-- What the server has announced, and what follows from it. -/
def terms (n : Network) : CaseMapping × Support × ServerInfo × ModeTable :=
  (n.mapping, n.support, n.info, n.modes)

/-- The same users are in the same channels, and are kept for the same reasons. -/
structure SameStanding (n n' : Network) : Prop where
  frame : n' = { n with roster := n'.roster, channels := n'.channels }
  sound : n.roster.Sound → n'.roster.Sound
  consistent : n.Consistent → n'.Consistent
  hold : ∀ id, n'.roster.hold? id = n.roster.hold? id

namespace SameStanding

variable {n n' n'' : Network}

theorem refl (n : Network) : n.SameStanding n := ⟨rfl, fun h => h, fun h => h, fun _ => rfl⟩

theorem trans (h : n.SameStanding n') (h' : n'.SameStanding n'') : n.SameStanding n'' where
  frame := by rw [h'.frame, h.frame]
  sound hSound := h'.sound (h.sound hSound)
  consistent hn := h'.consistent (h.consistent hn)
  hold id := (h'.hold id).trans (h.hold id)

theorem own_eq (h : n.SameStanding n') : n'.own = n.own := by rw [h.frame]

theorem terms_eq (h : n.SameStanding n') : n'.terms = n.terms := by
  rw [h.frame]
  rfl

/-- Where nobody's standing changes, no record is left without a reason. -/
theorem tidy (h : n.SameStanding n') (hTidy : n.roster.Tidy n.own) : n'.roster.Tidy n'.own := by
  rw [h.own_eq]
  exact Roster.Tidy.congr hTidy h.hold

/-- No record comes or goes. -/
theorem get?_eq_none_iff (h : n.SameStanding n') (id : ClientId) :
    n'.roster.get? id = none ↔ n.roster.get? id = none := by
  have hSame := h.hold id
  rw [Roster.hold?, Roster.hold?] at hSame
  rw [← Option.map_eq_none_iff, hSame, Option.map_eq_none_iff]

end SameStanding

/-- A note about a user changes nobody's standing. -/
theorem sameStanding_modifyClient (n : Network) (id : ClientId) {f : Client → Client}
    (hId : ∀ c, (f c).id = c.id) (hNick : ∀ c, (f c).nick = c.nick)
    (hChannels : ∀ c, (f c).channels = c.channels) (hKept : ∀ c, (f c).keptAlive = c.keptAlive) :
    n.SameStanding (n.modifyClient id f) where
  frame := rfl
  sound h := h.modify id hId hNick
  consistent h := h.modifyClient id hId hNick hChannels
  hold i := n.roster.hold?_modify id i hKept hChannels

theorem sameStanding_withTable {n : Network} {t : ChannelTable}
    (h : n.Consistent → { n with channels := t }.Consistent) :
    n.SameStanding { n with channels := t } := ⟨rfl, fun hSound => hSound, h, fun _ => rfl⟩

/-- A change of a channel that keeps its members changes nobody's standing. -/
theorem sameStanding_modifyChannel (n : Network) (name : String) {f : Channel → Channel}
    (hKeeps : ∀ c : Channel, c.Keeps (f c)) : n.SameStanding (n.modifyChannel name f) :=
  sameStanding_withTable fun h =>
    h.withTable rfl (h.table.modify name (fun c => (hKeeps c).name) fun c => (hKeeps c).sound)
      (ChannelTable.hasMember_modify_of_keeps _ _ hKeeps)

/-- Putting a channel back after such a change leaves everyone's standing as it was. -/
theorem sameStanding_put (n : Network) (name : String) {c : Channel}
    (hKeeps : (n.channels.getOrNew name).Keeps c) :
    n.SameStanding { n with channels := n.channels.put name c } :=
  sameStanding_withTable fun h =>
    h.withTable rfl (h.table.put hKeeps) (ChannelTable.hasMember_put hKeeps)

theorem terms_getOrCreateClient (n : Network) (mask : String) :
    (n.getOrCreateClient mask).2.terms = n.terms := rfl

theorem terms_join (n : Network) (channel mask : String) :
    (n.join channel mask).2.terms = n.terms := rfl

theorem terms_forgetOrphan (n : Network) (id : ClientId) : (n.forgetOrphan id).terms = n.terms := by
  rw [forgetOrphan_eq]
  rfl

theorem terms_part (n : Network) (channel : String) (id : ClientId) :
    (n.part channel id).2.terms = n.terms := by
  rcases n.part_cases channel id with ⟨_, he⟩ | ⟨c, _, he⟩
  · rw [he]
  · rw [he]
    exact terms_forgetOrphan _ id

theorem terms_foldl_part (n : Network) (channel : String) (ids : List ClientId) :
    (ids.foldl (fun n id => (n.part channel id).2) n).terms = n.terms := by
  induction ids generalizing n with
  | nil => rfl
  | cons id rest ih => exact (ih _).trans (n.terms_part channel id)

theorem terms_removeChannel (n : Network) (channel : String) :
    (n.removeChannel channel).2.terms = n.terms := by
  unfold removeChannel
  cases n.channel? channel with
  | none => rfl
  | some c =>
      simp only
      rw [(foldl_leaveKey _ _ _).1]
      rfl

theorem terms_quit (n : Network) (id : ClientId) : (n.quit id).2.terms = n.terms := by
  cases h : n.roster.get? id with
  | none =>
      unfold quit
      rw [h]
  | some client =>
      rw [quit_of_get? h]
      rfl

theorem terms_evict (n : Network) (id : ClientId) (nick : String) :
    (n.evict id nick).terms = n.terms := by
  unfold evict
  split
  · split
    · rfl
    · exact n.terms_quit _
  · rfl

theorem terms_rename (n : Network) (old new : String) : (n.rename old new).2.terms = n.terms := by
  rcases n.rename_cases old new with ⟨_, he⟩ | ⟨id, _, he⟩
  · rw [he]
  · rw [he]
    exact n.terms_evict id new

theorem terms_setOwn (n : Network) (mask : String) : (n.setOwn mask).2.terms = n.terms := by
  rcases n.setOwn_cases mask with ⟨_, he⟩ | ⟨c, _, he⟩
  · rw [he]
    rfl
  · rw [he, terms_getOrCreateClient]
    split
    · rfl
    · exact n.terms_rename _ _

theorem terms_setKeptAlive (n : Network) (nick : String) (keep : Bool) :
    (n.setKeptAlive nick keep).2.terms = n.terms := by
  unfold setKeptAlive
  cases (n.client? nick).map Client.id with
  | none => rfl
  | some id =>
      cases keep with
      | true => rfl
      | false => exact terms_forgetOrphan _ id

/-- Nothing that is done to users and channels touches the terms. -/
theorem terms_apply (n : Network) (op : Op) : (n.apply op).terms = n.terms := by
  cases op with
  | getOrCreateClient mask => exact n.terms_getOrCreateClient mask
  | createChannel name => rfl
  | setOwn mask => exact n.terms_setOwn mask
  | join channel mask => exact n.terms_join channel mask
  | part channel id => exact n.terms_part channel id
  | removeChannel channel => exact n.terms_removeChannel channel
  | quit id => exact n.terms_quit id
  | rename old new => exact n.terms_rename old new
  | setKeptAlive nick keep => exact n.terms_setKeptAlive nick keep
  | forgetOrphan id => exact n.terms_forgetOrphan id
  | clear => rfl

end Network

end Irc
