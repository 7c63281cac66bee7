import Irc.Proofs.Network.Trimming
/-! The order in which a network keeps its records. A membership is recorded on both sides, by
the channel and by the user, and the two sides agree at the end of each operation, though not
inside of its loops. -/
namespace Irc.Network

/-- Roster and table are in order, compare names alike and agree on who is where. -/
structure Consistent (n : Network) : Prop where
  rosterMapping : n.roster.mapping = n.mapping
  tableMapping : n.channels.mapping = n.mapping
  roster : n.roster.Sound
  table : n.channels.Sound
  linked : ∀ id key, n.channels.HasMember key id ↔ n.roster.InChannel id key

/-- A network that has just been made is consistent. -/
theorem consistent_new : new.Consistent where
  rosterMapping := rfl
  tableMapping := rfl
  roster := Roster.sound_new _
  table := ChannelTable.sound_new _
  linked id key := by
    constructor
    · rintro ⟨c, hc, _⟩
      cases hc
    · rintro ⟨c, hc, _⟩
      cases hc

/-- Who we are makes no difference. -/
theorem Consistent.withOwn {n : Network} (h : n.Consistent) (own : Option ClientId) :
    { n with own := own }.Consistent := ⟨h.1, h.2, h.3, h.4, h.5⟩

/-- A roster with the same memberships may take the place of the old one. -/
theorem Consistent.withRoster {n : Network} (h : n.Consistent) {r : Roster}
    (hMapping : r.mapping = n.roster.mapping) (hSound : r.Sound)
    (hIn : ∀ id key, r.InChannel id key ↔ n.roster.InChannel id key) :
    { n with roster := r }.Consistent where
  rosterMapping := hMapping.trans h.rosterMapping
  tableMapping := h.tableMapping
  roster := hSound
  table := h.table
  linked id key := (h.linked id key).trans (hIn id key).symm

/-- Another table may take the place of the table if it is in order and has the same members. -/
theorem Consistent.withTable {n : Network} (h : n.Consistent) {t : ChannelTable}
    (hMapping : t.mapping = n.channels.mapping) (hSound : t.Sound)
    (hMember : ∀ key id, t.HasMember key id ↔ n.channels.HasMember key id) :
    { n with channels := t }.Consistent where
  rosterMapping := h.rosterMapping
  tableMapping := hMapping.trans h.tableMapping
  roster := h.roster
  table := hSound
  linked id key := (hMember key id).trans (h.linked id key)

/-- A member of a channel has a record. -/
theorem Consistent.get?_of_hasMember {n : Network} (h : n.Consistent) {key : String}
    {id : ClientId} (hMember : n.channels.HasMember key id) : ∃ c, n.roster.get? id = some c :=
  ((h.linked id key).mp hMember).isSome

/-- Users are in channels by folded keys only. -/
theorem Consistent.fold_of_inChannel {n : Network} (h : n.Consistent) {id : ClientId}
    {key : String} (hIn : n.roster.InChannel id key) : n.channels.key key = key :=
  ((h.linked id key).mpr hIn).fold_key h.table

/-- A new record has no channels, and nobody else is filed under its nickname. -/
theorem Consistent.getOrCreateClient {n : Network} (h : n.Consistent) (mask : String) :
    (n.getOrCreateClient mask).2.Consistent :=
  h.withRoster (n.roster.mapping_getOrCreate mask) (h.roster.getOrCreate mask)
    (Roster.inChannel_getOrCreate h.roster mask)

/-- A new channel has no members. -/
theorem Consistent.createChannel {n : Network} (h : n.Consistent) (name : String) :
    (n.createChannel name).Consistent :=
  h.withTable rfl (h.table.create name) (n.channels.hasMember_create name)

/-- Nobody is in a channel who is forgotten as an orphan. -/
theorem Consistent.forgetOrphan {n : Network} (h : n.Consistent) (id : ClientId) :
    (n.forgetOrphan id).Consistent := by
  have hSound : (n.forgetOrphan id).roster.Sound ∧
      (n.forgetOrphan id).roster.mapping = n.roster.mapping := by
    rw [forgetOrphan_eq]
    by_cases hOrphan : n.isOrphan id = true
    · simp only [if_pos hOrphan]
      exact ⟨h.roster.remove id, Roster.mapping_remove _ _⟩
    · simp only [if_neg hOrphan]
      exact ⟨h.roster, trivial⟩
  have hFrame : n.forgetOrphan id = { n with roster := (n.forgetOrphan id).roster } := by
    rw [forgetOrphan_eq]
  rw [hFrame]
  exact h.withRoster hSound.2 hSound.1 (n.inChannel_forgetOrphan id)

/-- To forget is not to hand out an identity again. -/
theorem continues_forgetOrphan (n : Network) (id : ClientId) :
    n.roster.Continues (n.forgetOrphan id).roster := by
  rw [forgetOrphan_eq]
  by_cases hOrphan : n.isOrphan id = true
  · simp only [if_pos hOrphan]
    exact Roster.continues_remove _ _
  · simp only [if_neg hOrphan]
    exact Roster.Continues.refl _

/-- A change of a record that keeps identity, nickname and channel keys. -/
theorem Consistent.modifyClient {n : Network} (h : n.Consistent) (id : ClientId)
    {f : Client → Client} (hId : ∀ c, (f c).id = c.id) (hNick : ∀ c, (f c).nick = c.nick)
    (hChannels : ∀ c, (f c).channels = c.channels) : (n.modifyClient id f).Consistent :=
  h.withRoster rfl (h.roster.modify id hId hNick)
    (fun i => n.roster.inChannel_modify_of_channels id i hChannels)

/-- Keeping a record alive or not is no matter of memberships, so both sides still agree. -/
theorem Consistent.setKeptAlive {n : Network} (h : n.Consistent) (nick : String) (keep : Bool) :
    (n.setKeptAlive nick keep).2.Consistent := by
  unfold Network.setKeptAlive
  cases (n.client? nick).map Client.id with
  | none => exact h
  | some id =>
      have hHeld : (n.modifyClient id fun c => { c with keptAlive := keep }).Consistent :=
        h.modifyClient id (fun _ => rfl) (fun _ => rfl) (fun _ => rfl)
      cases keep with
      | true => exact hHeld
      | false => exact hHeld.forgetOrphan id

theorem continues_setKeptAlive (n : Network) (nick : String) (keep : Bool) :
    n.roster.Continues (n.setKeptAlive nick keep).2.roster := by
  unfold Network.setKeptAlive
  cases (n.client? nick).map Client.id with
  | none => exact Roster.Continues.refl _
  | some id =>
      have hHeld := Roster.continues_modify n.roster id fun c => { c with keptAlive := keep }
      cases keep with
      | true => exact hHeld
      | false => exact hHeld.trans (continues_forgetOrphan (n.modifyClient id _) id)

theorem Consistent.clear {n : Network} (h : n.Consistent) : n.clear.Consistent where
  rosterMapping := h.rosterMapping
  tableMapping := h.tableMapping
  roster := Roster.Sound.clear
  table := ChannelTable.Sound.clear
  linked id key :=
    ⟨fun hMember => (n.channels.not_hasMember_clear key id hMember).elim,
      fun hIn => (n.roster.not_inChannel_clear id key hIn).elim⟩

/-- A JOIN step by step: the user, the channel, and the membership on both sides. -/
theorem join_eq (n : Network) (channel mask : String) :
    n.join channel mask =
      let id := (n.roster.getOrCreate mask).1
      (id,
        { n with
          roster := (n.roster.getOrCreate mask).2.modify id fun c =>
            { c with channels := c.channels.add (n.channels.key channel) }
          channels := (n.channels.create channel).modify channel fun c =>
            { c with members := c.members.insertIfNew id { client := id } } }) := rfl

/-- Joining adds exactly one membership. -/
theorem hasMember_join (n : Network) (channel mask : String) (key : String) (id : ClientId) :
    (n.join channel mask).2.channels.HasMember key id ↔
      n.channels.HasMember key id ∨
        (key = n.channels.key channel ∧ id = (n.join channel mask).1) := by
  rw [join_eq]
  exact ChannelTable.hasMember_create_modify_insert _ _ _ _ _

/-- What has become of the records when someone has joined: one of them is new or has learned
something. -/
theorem get?_join {n : Network} (hn : n.Consistent) (channel mask : String) :
    (∃ c, (n.join channel mask).2.roster.get? (n.join channel mask).1 = some c ∧
      n.mapping.fold c.nick = n.mapping.fold (Hostmask.nickOf mask) ∧
      (∀ old, n.roster.get? (n.join channel mask).1 = some old →
        c.nick = old.nick ∧ c.keptAlive = old.keptAlive) ∧
      (n.roster.get? (n.join channel mask).1 = none → c.keptAlive = false)) ∧
    ∀ i, i ≠ (n.join channel mask).1 →
      (n.join channel mask).2.roster.get? i = n.roster.get? i := by
  rw [join_eq]
  simp only
  obtain ⟨c, hc, hNick, hOld, hNew⟩ := Roster.get?_getOrCreate hn.roster mask
  constructor
  · refine ⟨{ c with channels := c.channels.add (n.channels.key channel) }, ?_, ?_, hOld, hNew⟩
    · rw [Roster.get?_modify, if_pos rfl, hc]
      rfl
    · rw [← hn.rosterMapping]
      exact hNick
  · intro i hi
    rw [Roster.get?_modify, if_neg hi, Roster.get?_getOrCreate_of_ne _ hi]

/-- A JOIN records the membership on both sides. -/
theorem Consistent.join {n : Network} (h : n.Consistent) (channel mask : String) :
    (n.join channel mask).2.Consistent where
  rosterMapping := by
    rw [join_eq, ← h.rosterMapping]
    exact n.roster.mapping_getOrCreate mask
  tableMapping := h.tableMapping
  roster := by
    rw [join_eq]
    exact (h.roster.getOrCreate mask).modify _ (fun _ => rfl) (fun _ => rfl)
  table := by
    rw [join_eq]
    exact (h.table.create channel).modify channel (fun _ => rfl) (fun _ hc => hc.insertIfNew _)
  linked id key := by
    obtain ⟨c, hc, _⟩ := Roster.get?_getOrCreate h.roster mask
    rw [hasMember_join, join_eq]
    simp only
    rw [Roster.inChannel_modify_add ⟨c, hc⟩,
      Roster.inChannel_getOrCreate h.roster, h.linked, and_comm]

/-- A JOIN hands out at most one identity, and a new one. -/
theorem continues_join (n : Network) (channel mask : String) :
    n.roster.Continues (n.join channel mask).2.roster := by
  rw [join_eq]
  exact (Roster.continues_getOrCreate mask).trans (Roster.continues_modify _ _ _)

end Irc.Network
