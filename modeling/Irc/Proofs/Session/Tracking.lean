import Irc.Proofs.Hostmask
import Irc.Proofs.Network.Keeping
import Irc.Proofs.Network.Renaming
import Irc.Proofs.Session.Picture
/-! A network whose records tell what a picture tells. Apart from consistency this takes an index
that finds every record, and that no record is there without a reason; then who is known is a
matter of memberships alone. -/
namespace Irc.Network

structure Tracks (n : Network) (p : Picture) : Prop where
  mapping : p.mapping = n.mapping
  consistent : n.Consistent
  found : n.roster.Found
  tidy : n.roster.Tidy n.own
  unkept : ∀ {id c}, n.roster.get? id = some c → c.keptAlive = false
  own : ∃ me c, n.own = some me ∧ n.roster.get? me = some c ∧ n.mapping.fold c.nick = p.own
  channels : ∀ key, key ∈ p.channels ↔ n.channels.channels.contains key = true
  members : ∀ key u, (key, u) ∈ p.members ↔
    ∃ id c, n.roster.get? id = some c ∧ n.mapping.fold c.nick = u ∧ n.channels.HasMember key id
  support : n.support = Support.empty
  statuses : ∃ letters user,
    n.modes = ModeTable.complete letters StatusModes.default.pairs user

namespace Tracks

variable {n n' : Network} {p p' : Picture}

/-- The index has exactly the records, by their folded nicknames. -/
theorem byNick_iff (h : Tracks n p) (key : String) (id : ClientId) :
    n.roster.byNick.get? key = some id ↔
      ∃ c, n.roster.get? id = some c ∧ n.mapping.fold c.nick = key := by
  rw [← h.consistent.rosterMapping]
  constructor
  · exact h.consistent.roster.index
  · rintro ⟨c, hc, rfl⟩
    exact h.found hc

/-- A nickname leads to whoever has it, in any spelling. -/
theorem findId?_iff (h : Tracks n p) (x : String) (id : ClientId) :
    n.findId? x = some id ↔
      ∃ c, n.roster.get? id = some c ∧
        n.mapping.fold c.nick = n.mapping.fold (Hostmask.nickOf x) := by
  rw [← h.byNick_iff, ← h.consistent.rosterMapping]
  rfl

theorem key_eq (h : Tracks n p) (channel : String) :
    n.channels.key channel = n.mapping.fold channel := by
  rw [ChannelTable.key, h.consistent.tableMapping]

/-- A channel has a record exactly if the picture has it. -/
theorem contains_iff (h : Tracks n p) (channel : String) :
    n.channels.contains channel = true ↔ n.mapping.fold channel ∈ p.channels := by
  rw [h.channels, ← h.key_eq]
  rfl

/-- No two records have nicknames that fold alike. -/
theorem unique (h : Tracks n p) {i j : ClientId} {c d : Client} (hc : n.roster.get? i = some c)
    (hd : n.roster.get? j = some d) (hSame : n.mapping.fold c.nick = n.mapping.fold d.nick) :
    i = j := by
  have hi := (h.byNick_iff (n.mapping.fold c.nick) i).mpr ⟨c, hc, rfl⟩
  have hj := (h.byNick_iff (n.mapping.fold c.nick) j).mpr ⟨d, hd, hSame.symm⟩
  rw [hi] at hj
  exact Option.some.inj hj

/-- A nickname leads to a given record exactly if it folds like the one in the record. -/
theorem findId?_iff_of_get? (h : Tracks n p) {i : ClientId} {d : Client}
    (hd : n.roster.get? i = some d) (x : String) :
    n.findId? x = some i ↔ n.mapping.fold d.nick = n.mapping.fold (Hostmask.nickOf x) := by
  rw [h.findId?_iff]
  constructor
  · rintro ⟨c, hc, hFold⟩
    rw [hd] at hc
    cases hc
    exact hFold
  · exact fun hFold => ⟨d, hd, hFold⟩

/-- The nickname leads to one record alone. -/
theorem fold_nick_iff (h : Tracks n p) {x : String} {id : ClientId} (hId : n.findId? x = some id)
    {i : ClientId} {d : Client} (hd : n.roster.get? i = some d) :
    n.mapping.fold d.nick = n.mapping.fold (Hostmask.nickOf x) ↔ i = id := by
  rw [← h.findId?_iff_of_get? hd, hId, Option.some_inj, eq_comm]

/-- A nickname is ours in the records exactly if it is ours in the picture. -/
theorem isOwn_iff (h : Tracks n p) (x : String) :
    n.isOwn x = true ↔ n.mapping.fold (Hostmask.nickOf x) = p.own := by
  obtain ⟨me, c, hMe, hc, hNick⟩ := h.own
  have hIs : n.isOwn x = true ↔ n.findId? x = some me := by
    simp [isOwn, hMe]
  rw [hIs, h.findId?_iff_of_get? hc, hNick, eq_comm]

theorem fold_nick_of_own (h : Tracks n p) {i : ClientId} {d : Client} (hOwn : n.own = some i)
    (hd : n.roster.get? i = some d) : n.mapping.fold d.nick = p.own := by
  obtain ⟨me, c, hMe, hc, hNick⟩ := h.own
  rw [hOwn] at hMe
  cases hMe
  rw [hd] at hc
  cases hc
  exact hNick

/-- Who is known is ourselves or in a channel. -/
theorem knows_iff (h : Tracks n p) (u : String) :
    p.Knows u ↔ ∃ id c, n.roster.get? id = some c ∧ n.mapping.fold c.nick = u := by
  obtain ⟨me, own, hMe, hOwn, hNick⟩ := h.own
  constructor
  · rintro (rfl | ⟨⟨key, w⟩, hMember, rfl⟩)
    · exact ⟨me, own, hOwn, hNick⟩
    · obtain ⟨id, c, hc, hFold, _⟩ := (h.members key w).mp hMember
      exact ⟨id, c, hc, hFold⟩
  · rintro ⟨id, c, hc, rfl⟩
    rcases h.tidy hc with hIs | hKept | ⟨key, hKey⟩
    · exact Or.inl (h.fold_nick_of_own hIs hc)
    · rw [h.unkept hc] at hKept
      cases hKept
    · have hMember := (h.consistent.linked id key).mpr ⟨c, hc, hKey⟩
      exact Or.inr ⟨(key, _), (h.members key _).mpr ⟨id, c, hc, rfl, hMember⟩, rfl⟩

/-- Nobody is found exactly if the picture knows nobody of the nickname. -/
theorem findId?_eq_none_iff (h : Tracks n p) (x : String) :
    n.findId? x = none ↔ ¬p.Knows (n.mapping.fold (Hostmask.nickOf x)) := by
  rw [h.knows_iff]
  simp only [← h.findId?_iff]
  cases n.findId? x <;> simp

/-- The pairs of the picture are the memberships of the records. -/
theorem mem_members_of_get? (h : Tracks n p) {id : ClientId} {c : Client}
    (hc : n.roster.get? id = some c) (key : String) :
    (key, n.mapping.fold c.nick) ∈ p.members ↔ n.channels.HasMember key id := by
  rw [h.members]
  constructor
  · rintro ⟨i, d, hd, hFold, hMember⟩
    rw [← h.unique hd hc hFold]
    exact hMember
  · exact fun hMember => ⟨id, c, hc, rfl, hMember⟩

/-- Nicknames and memberships, and which channels there are, are all that counts. -/
theorem congr (h : Tracks n p) {channels : Finset String} (hConsistent : n'.Consistent)
    (hFound : n'.roster.Found) (hOwn : n'.own = n.own) (hMapping : n'.mapping = n.mapping)
    (hSupport : n'.support = n.support) (hModes : n'.modes = n.modes)
    (hRecord : ∀ i, (n'.roster.get? i).map (fun c => (c.nick, c.keptAlive)) =
      (n.roster.get? i).map fun c => (c.nick, c.keptAlive))
    (hKnown : ∀ key, key ∈ channels ↔ n'.channels.channels.contains key = true)
    (hMember : ∀ key id, n'.channels.HasMember key id ↔ n.channels.HasMember key id) :
    Tracks n' { p with channels := channels } := by
  have hOld : ∀ {i c'}, n'.roster.get? i = some c' →
      ∃ c, n.roster.get? i = some c ∧ c.nick = c'.nick ∧ c.keptAlive = c'.keptAlive := by
    intro i c' hc'
    have hSame := hRecord i
    rw [hc', Option.map_some] at hSame
    obtain ⟨c, hc, hPair⟩ := Option.map_eq_some_iff.mp hSame.symm
    exact ⟨c, hc, congrArg Prod.fst hPair, congrArg Prod.snd hPair⟩
  have hNew : ∀ {i c}, n.roster.get? i = some c →
      ∃ c', n'.roster.get? i = some c' ∧ c'.nick = c.nick := by
    intro i c hc
    have hSame := hRecord i
    rw [hc, Option.map_some] at hSame
    obtain ⟨c', hc', hPair⟩ := Option.map_eq_some_iff.mp hSame
    exact ⟨c', hc', congrArg Prod.fst hPair⟩
  constructor
  case mapping => exact h.mapping.trans hMapping.symm
  case consistent => exact hConsistent
  case found => exact hFound
  case tidy =>
    intro i c' hc'
    obtain ⟨c, hc, _, hKept⟩ := hOld hc'
    rw [hOwn]
    rcases h.tidy hc with hIs | hIs | ⟨key, hKey⟩
    · exact Or.inl hIs
    · exact Or.inr (Or.inl (hKept ▸ hIs))
    · have hIn := (hConsistent.linked i key).mp
        ((hMember key i).mpr ((h.consistent.linked i key).mpr ⟨c, hc, hKey⟩))
      exact Or.inr (Or.inr ⟨key, (Roster.inChannel_iff_of_get? hc' key).mp hIn⟩)
  case unkept =>
    intro i c' hc'
    obtain ⟨c, hc, _, hKept⟩ := hOld hc'
    rw [← hKept]
    exact h.unkept hc
  case own =>
    obtain ⟨me, c, hMe, hc, hNick⟩ := h.own
    obtain ⟨c', hc', hSame⟩ := hNew hc
    exact ⟨me, c', hOwn.trans hMe, hc', by rw [hMapping, hSame, hNick]⟩
  case channels => exact hKnown
  case members =>
    intro key u
    rw [h.members, hMapping]
    simp only [hMember]
    constructor
    · rintro ⟨i, c, hc, rfl, hHas⟩
      obtain ⟨c', hc', hSame⟩ := hNew hc
      exact ⟨i, c', hc', by rw [hSame], hHas⟩
    · rintro ⟨i, c', hc', rfl, hHas⟩
      obtain ⟨c, hc, hSame, _⟩ := hOld hc'
      exact ⟨i, c, hc, by rw [hSame], hHas⟩
  case support => exact hSupport.trans h.support
  case statuses =>
    rw [hModes]
    exact h.statuses

/-- A note about a user is not seen in the picture. -/
theorem modifyClient (h : Tracks n p) (id : ClientId) {f : Client → Client}
    (hId : ∀ c, (f c).id = c.id) (hNick : ∀ c, (f c).nick = c.nick)
    (hChannels : ∀ c, (f c).channels = c.channels) (hKept : ∀ c, (f c).keptAlive = c.keptAlive) :
    Tracks (n.modifyClient id f) p := by
  refine h.congr (h.consistent.modifyClient id hId hNick hChannels)
    (Roster.Found.modify h.found id hNick) rfl rfl rfl rfl (fun i => ?_) h.channels (fun _ _ => Iff.rfl)
  change ((n.roster.modify id f).get? i).map _ = _
  rw [Roster.get?_modify]
  by_cases hi : i = id
  · rw [if_pos hi, Option.map_map, hi]
    simp only [Function.comp_def, hNick, hKept]
  · rw [if_neg hi]

/-- The table may change if all members stay, even if there are more channels then. -/
theorem withTable (h : Tracks n p) {t : ChannelTable} {channels : Finset String}
    (hMapping : t.mapping = n.channels.mapping) (hSound : t.Sound)
    (hMember : ∀ key id, t.HasMember key id ↔ n.channels.HasMember key id)
    (hKnown : ∀ key, key ∈ channels ↔ t.channels.contains key = true) :
    Tracks { n with channels := t } { p with channels := channels } :=
  h.congr (h.consistent.withTable hMapping hSound hMember) h.found rfl rfl rfl rfl (fun _ => rfl)
    hKnown hMember

/-- A channel's record may change in all but its name and its members. -/
theorem modifyChannel (h : Tracks n p) (name : String) {f : Channel → Channel}
    (hKeeps : ∀ c : Channel, c.Keeps (f c)) : Tracks (n.modifyChannel name f) p := by
  refine h.withTable rfl ?_ (n.channels.hasMember_modify_of_keeps name hKeeps) fun key => ?_
  · exact h.consistent.table.modify name (fun c => (hKeeps c).name) (fun c => (hKeeps c).sound)
  · exact (h.channels key).trans (SortedMap.contains_modify _ _ _ _).symm

/-- A record is put where there was one, or none yet. -/
theorem put (h : Tracks n p) (name : String) {c : Channel}
    (hKeeps : (n.channels.getOrNew name).Keeps c) :
    Tracks { n with channels := n.channels.put name c } (p.note (n.mapping.fold name)) := by
  refine h.withTable rfl (h.consistent.table.put hKeeps) (ChannelTable.hasMember_put hKeeps) ?_
  intro key
  rw [Finset.mem_insert, h.channels, ← h.key_eq]
  exact (SortedMap.contains_insert _ _ _ _).symm

/-- The server's announcements apart from the case mapping do not matter, as long as it has the
usual statuses. -/
theorem withInfo (h : Tracks n p) (info : ServerInfo) (family : ServerFamily) {modes : ModeTable}
    (hModes : ∃ letters user,
      modes = ModeTable.complete letters StatusModes.default.pairs user) :
    Tracks { n with info := info, family := family, modes := modes } p where
  mapping := h.mapping
  consistent := ⟨h.consistent.1, h.consistent.2, h.consistent.3, h.consistent.4, h.consistent.5⟩
  found := h.found
  tidy := h.tidy
  unkept := h.unkept
  own := h.own
  channels := h.channels
  members := h.members
  support := h.support
  statuses := hModes

/-- A user that is still in a channel is still there. -/
theorem get?_of_withdraws {dropped : String → Prop} {gone : String → ClientId → Prop}
    (h : Tracks n p) (hw : Withdraws dropped gone n n') {id : ClientId} {c : Client}
    (hc : n.roster.get? id = some c) {key : String} (hMember : n'.channels.HasMember key id) :
    ∃ c', n'.roster.get? id = some c' ∧ c'.nick = c.nick := by
  obtain ⟨c', hc'⟩ := (hw.consistent h.consistent).get?_of_hasMember hMember
  obtain ⟨d, hd, hNick, _⟩ := hw.trims.record hc'
  rw [hc] at hd
  cases hd
  exact ⟨c', hc', hNick⟩

/-- What goes on one side goes on the other. -/
theorem withdraw {dropped : String → Prop} {gone : String → ClientId → Prop}
    (h : Tracks n p) (hw : Withdraws dropped gone n n')
    (hMapping : p'.mapping = p.mapping) (hOwn : p'.own = p.own)
    (hChannels : ∀ key, key ∈ p'.channels ↔ key ∈ p.channels ∧ ¬dropped key)
    (hMembers : ∀ key id c, n.roster.get? id = some c →
      ((key, n.mapping.fold c.nick) ∈ p'.members ↔
        (key, n.mapping.fold c.nick) ∈ p.members ∧ ¬gone key id))
    (hSub : p'.members ⊆ p.members) : Tracks n' p' where
  mapping := hMapping.trans (h.mapping.trans hw.mapping_eq.symm)
  consistent := hw.consistent h.consistent
  found := hw.trims.found h.consistent.roster h.found
  tidy := by
    rw [hw.own_eq]
    exact hw.trims.tidy h.tidy
  unkept := by
    intro id c' hc'
    obtain ⟨c, hc, _, hKept⟩ := hw.trims.record hc'
    rw [hKept]
    exact h.unkept hc
  own := by
    obtain ⟨me, c, hMe, hc, hNick⟩ := h.own
    obtain ⟨c', hc'⟩ := hw.trims.ours hMe hc
    obtain ⟨d, hd, hSame, _⟩ := hw.trims.record hc'
    rw [hc] at hd
    cases hd
    exact ⟨me, c', hw.own_eq.trans hMe, hc', by rw [hw.mapping_eq, hSame, hNick, hOwn]⟩
  channels key := by rw [hChannels, h.channels, hw.known]
  members key u := by
    rw [hw.mapping_eq]
    constructor
    · intro hIn
      obtain ⟨id, c, hc, rfl, hMember⟩ := (h.members key u).mp (hSub hIn)
      have hStays := (hw.hasMember key id).mpr ⟨hMember, ((hMembers key id c hc).mp hIn).2⟩
      obtain ⟨c', hc', hNick⟩ := h.get?_of_withdraws hw hc hStays
      exact ⟨id, c', hc', by rw [hNick], hStays⟩
    · rintro ⟨id, c', hc', rfl, hMember⟩
      obtain ⟨c, hc, hNick, _⟩ := hw.trims.record hc'
      obtain ⟨hOld, hNot⟩ := (hw.hasMember key id).mp hMember
      rw [hNick]
      exact (hMembers key id c hc).mpr ⟨(h.mem_members_of_get? hc key).mpr hOld, hNot⟩
  support := by
    rw [hw.frame]
    exact h.support
  statuses := by
    rw [hw.frame]
    exact h.statuses

/-- The picture may be told in another way. -/
theorem of_iff (h : Tracks n p) (hMapping : p'.mapping = p.mapping) (hOwn : p'.own = p.own)
    (hChannels : ∀ key, key ∈ p'.channels ↔ key ∈ p.channels)
    (hMembers : ∀ e, e ∈ p'.members ↔ e ∈ p.members) : Tracks n p' := by
  have hEq : p' = p := Picture.ext hMapping hOwn (Finset.ext hChannels) (Finset.ext hMembers)
  rw [hEq]
  exact h

/-- Leaving the network takes the nickname out of every pair. -/
theorem quit (h : Tracks n p) (x : String) {id : ClientId} (hId : n.findId? x = some id) :
    Tracks (n.quit id).2 (p.quit (n.mapping.fold (Hostmask.nickOf x))) := by
  refine h.withdraw (withdraws_quit h.consistent id) rfl rfl (fun key => by simp [Picture.quit])
    (fun key i d hd => ?_) (Finset.filter_subset _ _)
  rw [Picture.quit, Finset.mem_filter]
  exact and_congr_right fun _ => not_congr (h.fold_nick_iff hId hd)

/-- No one who is not known is in a channel. -/
theorem quit_of_none (h : Tracks n p) {x : String} (hNone : n.findId? x = none) :
    Tracks n (p.quit (n.mapping.fold (Hostmask.nickOf x))) := by
  have hUnknown := (h.findId?_eq_none_iff x).mp hNone
  refine h.of_iff rfl rfl (fun _ => Iff.rfl) fun e => ?_
  rw [Picture.quit, Finset.mem_filter]
  exact and_iff_left_of_imp fun he hSame => hUnknown (Or.inr ⟨e, he, hSame⟩)

/-- A channel that is forgotten takes its pairs with it. -/
theorem removeChannel (h : Tracks n p) (channel : String) :
    Tracks (n.removeChannel channel).2
      { p with
        channels := p.channels.erase (n.mapping.fold channel)
        members := p.members.filter (·.1 ≠ n.mapping.fold channel) } := by
  have hKey := h.key_eq channel
  have hw := withdraws_removeChannel h.consistent channel
  rw [hKey] at hw
  refine h.withdraw hw rfl rfl (fun key => ?_) (fun key i d _ => ?_) (Finset.filter_subset _ _)
  · rw [Finset.mem_erase, and_comm]
  · rw [Finset.mem_filter]

/-- Leaving a channel takes out one pair. -/
theorem part (h : Tracks n p) (channel x : String) {id : ClientId} (hId : n.findId? x = some id) :
    Tracks (n.part channel id).2
      { p with
        members :=
          p.members.erase (n.mapping.fold channel, n.mapping.fold (Hostmask.nickOf x)) } := by
  have hKey := h.key_eq channel
  have hw := withdraws_part h.consistent channel id
  rw [hKey] at hw
  refine h.withdraw hw rfl rfl (fun key => by simp) (fun key i d hd => ?_) (Finset.erase_subset _ _)
  rw [Finset.mem_erase, and_comm]
  refine and_congr_right fun _ => not_congr ?_
  rw [Prod.mk.injEq]
  exact and_congr_right fun _ => h.fold_nick_iff hId hd

/-- Coming into a channel adds the channel, if it is new, and the pair. -/
theorem join (h : Tracks n p) (channel mask : String) :
    Tracks (n.join channel mask).2
      { p with
        channels := insert (n.mapping.fold channel) p.channels
        members := insert (n.mapping.fold channel, n.mapping.fold (Hostmask.nickOf mask))
          p.members } := by
  have hKey := h.key_eq channel
  have hConsistent := h.consistent.join channel mask
  have hMember := n.hasMember_join channel mask
  obtain ⟨⟨c, hc, hNick, hOld, hNew⟩, hOthers⟩ := get?_join h.consistent channel mask
  have hMine : (n.join channel mask).2.channels.HasMember (n.channels.key channel)
      (n.join channel mask).1 := (hMember _ _).mpr (Or.inr ⟨rfl, rfl⟩)
  -- A record that was there keeps its nickname.
  have hKeeps : ∀ {i old}, n.roster.get? i = some old →
      ∃ new, (n.join channel mask).2.roster.get? i = some new ∧ new.nick = old.nick := by
    intro i old hi
    by_cases hSame : i = (n.join channel mask).1
    · subst hSame
      exact ⟨c, hc, (hOld old hi).1⟩
    · exact ⟨old, (hOthers i hSame).trans hi, rfl⟩
  constructor
  case mapping => exact h.mapping
  case consistent => exact hConsistent
  case found =>
    rw [join_eq]
    refine Roster.Found.modify (f := fun c =>
      { c with channels := c.channels.add (n.channels.key channel) }) ?_ _ (fun _ => rfl)
    exact Roster.Found.getOrCreate h.found mask
  case tidy =>
    intro i d hd
    by_cases hSame : i = (n.join channel mask).1
    · subst hSame
      have hIn := (hConsistent.linked _ _).mp hMine
      exact Or.inr (Or.inr ⟨_, (Roster.inChannel_iff_of_get? hd _).mp hIn⟩)
    · rw [hOthers i hSame] at hd
      exact h.tidy hd
  case unkept =>
    intro i d hd
    by_cases hSame : i = (n.join channel mask).1
    · subst hSame
      rw [hc] at hd
      cases hd
      cases hBefore : n.roster.get? (n.join channel mask).1 with
      | none => exact hNew hBefore
      | some old => exact (hOld old hBefore).2.trans (h.unkept hBefore)
    · rw [hOthers i hSame] at hd
      exact h.unkept hd
  case own =>
    obtain ⟨me, d, hMe, hd, hSame⟩ := h.own
    obtain ⟨d', hd', hKept⟩ := hKeeps hd
    exact ⟨me, d', hMe, hd', by rw [hKept]; exact hSame⟩
  case channels =>
    intro key
    have hContains : (n.join channel mask).2.channels.channels.contains key = true ↔
        key = n.channels.key channel ∨ n.channels.channels.contains key = true :=
      (SortedMap.contains_modify _ _ _ _).trans (SortedMap.contains_insertIfNew _ _ _ _)
    rw [hContains, Finset.mem_insert, h.channels, hKey]
  case members =>
    intro key u
    rw [Finset.mem_insert, Prod.mk.injEq, ← hKey]
    constructor
    · rintro (⟨rfl, rfl⟩ | hIn)
      · exact ⟨_, c, hc, hNick, hMine⟩
      · obtain ⟨i, old, hi, rfl, hHas⟩ := (h.members key u).mp hIn
        obtain ⟨new, hNewRecord, hSame⟩ := hKeeps hi
        exact ⟨i, new, hNewRecord, congrArg n.mapping.fold hSame,
          (hMember key i).mpr (Or.inl hHas)⟩
    · rintro ⟨i, d, hd, rfl, hHas⟩
      rcases (hMember key i).mp hHas with hHas | ⟨hThis, rfl⟩
      · obtain ⟨old, hi⟩ := h.consistent.get?_of_hasMember hHas
        obtain ⟨new, hNewRecord, hSame⟩ := hKeeps hi
        rw [hd] at hNewRecord
        cases hNewRecord
        refine Or.inr ((h.members key _).mpr ⟨i, old, hi, ?_, hHas⟩)
        exact congrArg n.mapping.fold hSame.symm
      · rw [hc] at hd
        cases hd
        exact Or.inl ⟨hThis, hNick⟩
  case support => exact h.support
  case statuses => exact h.statuses

/-- A known user takes a nickname that no one else has. -/
theorem rename_free (h : Tracks n p) {m : CaseMapping} (hm : n.mapping = m) {old new : String}
    {id : ClientId} (hId : n.findId? old = some id)
    (hFree : ∀ i d, n.roster.get? i = some d → m.fold d.nick = m.fold new → i = id) :
    Tracks { n with roster := (n.roster.rename old new).2 }
      { p with
        own := if m.fold (Hostmask.nickOf old) = p.own then m.fold new else p.own
        members := p.members.image fun e =>
          (e.1, if e.2 = m.fold (Hostmask.nickOf old) then m.fold new else e.2) } := by
  subst hm
  have hFind : n.roster.findId? old = some id := hId
  have hGet : ∀ i, (n.roster.rename old new).2.get? i =
      (n.roster.get? i).map fun d => if i = id then { d with nick := new } else d :=
    Roster.get?_rename_eq_map hFind new
  have hBefore : ∀ {i d'}, (n.roster.rename old new).2.get? i = some d' →
      ∃ d, n.roster.get? i = some d ∧ (if i = id then { d with nick := new } else d) = d' := by
    intro i d' hd'
    rw [hGet] at hd'
    exact Option.map_eq_some_iff.mp hd'
  have hFold : ∀ {i d}, n.roster.get? i = some d →
      n.mapping.fold (if i = id then { d with nick := new } else d : Client).nick =
        if n.mapping.fold d.nick = n.mapping.fold (Hostmask.nickOf old) then n.mapping.fold new
        else n.mapping.fold d.nick := by
    intro i d hd
    simp only [h.fold_nick_iff hId hd]
    by_cases hi : i = id
    · rw [if_pos hi, if_pos hi]
    · rw [if_neg hi, if_neg hi]
  constructor
  case mapping => exact h.mapping
  case consistent =>
    exact h.consistent.withRoster (Roster.mapping_rename _ _ _) (h.consistent.roster.rename old new)
      (Roster.inChannel_rename _ _ _)
  case found =>
    intro i d' hd'
    obtain ⟨d, hd, rfl⟩ := hBefore hd'
    change (n.roster.rename old new).2.byNick.get?
      ((n.roster.rename old new).2.mapping.fold (Client.nick _)) = some i
    rw [Roster.mapping_rename, Roster.byNick_rename hFind, h.consistent.rosterMapping]
    by_cases hi : i = id
    · rw [if_pos hi, if_pos rfl, hi]
    · have hNotNew : n.mapping.fold d.nick ≠ n.mapping.fold new := fun hSame =>
        hi (hFree i d hd hSame)
      have hNotOld : n.mapping.fold d.nick ≠ n.mapping.fold (Hostmask.nickOf old) := fun hSame =>
        hi ((h.fold_nick_iff hId hd).mp hSame)
      rw [if_neg hi, if_neg hNotNew, if_neg hNotOld]
      exact (h.byNick_iff _ i).mpr ⟨d, hd, rfl⟩
  case tidy =>
    intro i d' hd'
    obtain ⟨d, hd, rfl⟩ := hBefore hd'
    have hTidy := h.tidy hd
    by_cases hi : i = id
    · rw [if_pos hi]
      exact hTidy
    · rw [if_neg hi]
      exact hTidy
  case unkept =>
    intro i d' hd'
    obtain ⟨d, hd, rfl⟩ := hBefore hd'
    have hUnkept := h.unkept hd
    by_cases hi : i = id
    · rw [if_pos hi]
      exact hUnkept
    · rw [if_neg hi]
      exact hUnkept
  case own =>
    obtain ⟨me, d, hMe, hd, hSame⟩ := h.own
    refine ⟨me, _, hMe, (hGet me).trans (congrArg (Option.map _) hd), ?_⟩
    change n.mapping.fold (Client.nick _) = _
    rw [hFold hd, hSame]
    by_cases hOwn : p.own = n.mapping.fold (Hostmask.nickOf old)
    · rw [if_pos hOwn, if_pos hOwn.symm]
    · rw [if_neg hOwn, if_neg (Ne.symm hOwn)]
  case channels => exact h.channels
  case members =>
    intro key w
    rw [Finset.mem_image]
    constructor
    · rintro ⟨⟨k, x⟩, hIn, hPair⟩
      obtain ⟨i, d, hd, rfl, hHas⟩ := (h.members k x).mp hIn
      cases hPair
      exact ⟨i, _, (hGet i).trans (congrArg (Option.map _) hd), hFold hd, hHas⟩
    · rintro ⟨i, d', hd', rfl, hHas⟩
      obtain ⟨d, hd, rfl⟩ := hBefore hd'
      refine ⟨(key, n.mapping.fold d.nick), (h.mem_members_of_get? hd key).mpr hHas, ?_⟩
      exact congrArg (key, ·) (hFold hd).symm
  case support => exact h.support
  case statuses => exact h.statuses

/-- Whoever else has the new nickname is gone before it is taken. -/
theorem evict (h : Tracks n p) {old new : String} {id : ClientId} (hId : n.findId? old = some id)
    (hPlain : Hostmask.nickOf new = new) :
    Tracks (n.evict id new)
      { p with members := p.members.filter fun e => e.2 = n.mapping.fold new →
          n.mapping.fold (Hostmask.nickOf old) = n.mapping.fold new } := by
  refine h.withdraw (withdraws_evict h.consistent id new) rfl rfl (fun key => by simp)
    (fun key i d hd => ?_) (Finset.filter_subset _ _)
  rw [Finset.mem_filter]
  refine and_congr_right fun _ => ?_
  unfold Evicts
  rw [h.findId?_iff_of_get? hd, hPlain, not_and, not_not]
  refine imp_congr_right fun hNew => ?_
  rw [← hNew, eq_comm]
  exact h.fold_nick_iff hId hd

/-- The user itself is found as before. -/
theorem findId?_evict (h : Tracks n p) {old new : String} {id : ClientId}
    (hId : n.findId? old = some id) (hPlain : Hostmask.nickOf new = new) :
    (n.evict id new).findId? old = some id := by
  obtain ⟨c, hc, hNick⟩ := (h.findId?_iff old id).mp hId
  have hStays : (n.evict id new).roster.get? id = n.roster.get? id :=
    (get?_evict n id new).1 id fun hGone => hGone.2 rfl
  rw [(h.evict hId hPlain).findId?_iff, hStays, (withdraws_evict h.consistent id new).mapping_eq]
  exact ⟨c, hc, hNick⟩

/-- No one else has the new nickname then, unless it was ours. -/
theorem evict_free (h : Tracks n p) {old new : String} {id : ClientId}
    (hId : n.findId? old = some id) (hPlain : Hostmask.nickOf new = new)
    (hOurs : n.mapping.fold new = p.own → n.mapping.fold (Hostmask.nickOf old) = p.own)
    {i : ClientId} {d : Client} (hd : (n.evict id new).roster.get? i = some d)
    (hSame : n.mapping.fold d.nick = n.mapping.fold new) : i = id := by
  by_contra hNe
  obtain ⟨d₀, hd₀, hNick, _⟩ := (withdraws_evict h.consistent id new).trims.record hd
  rw [hNick] at hSame
  have hHolder : n.Evicts id new i := by
    refine ⟨(h.findId?_iff_of_get? hd₀ new).mpr ?_, hNe⟩
    rw [hPlain, hSame]
  have hNotOwn : n.own ≠ some i := by
    intro hOwn
    have hMine := h.fold_nick_of_own hOwn hd₀
    have hOld := hOurs (hSame.symm.trans hMine)
    exact hNe ((h.fold_nick_iff hId hd₀).mp (hMine.trans hOld.symm))
  rw [(get?_evict n id new).2 i hHolder hNotOwn] at hd
  cases hd

/-- A nickname is ours for as long as nobody else takes it. -/
theorem rename (h : Tracks n p) {old new : String} (hPlain : Hostmask.nickOf new = new)
    (hOurs : n.mapping.fold new = p.own → p.Knows (n.mapping.fold (Hostmask.nickOf old)) →
      n.mapping.fold (Hostmask.nickOf old) = p.own) :
    Tracks (n.rename old new).2
      (p.rename (n.mapping.fold (Hostmask.nickOf old)) (n.mapping.fold new)) := by
  rcases n.rename_cases old new with ⟨hNone, he⟩ | ⟨id, hId, he⟩
  · rw [he, Picture.rename, if_neg ((h.findId?_eq_none_iff old).mp hNone)]
    exact h
  · obtain ⟨c, hc, hNick⟩ := (h.findId?_iff old id).mp hId
    have hKnows := (h.knows_iff _).mpr ⟨id, c, hc, hNick⟩
    have hw := withdraws_evict h.consistent id new
    rw [he, Picture.rename, if_pos hKnows]
    refine (h.evict hId hPlain).rename_free hw.mapping_eq (h.findId?_evict hId hPlain) ?_
    intro i d hd hSame
    exact h.evict_free hId hPlain (fun hNew => hOurs hNew hKnows) hd hSame

/-- If somebody else does take it, we have no nickname any more, though our record stays. -/
theorem isOwn_rename_of_taken (h : Tracks n p) {old new : String}
    (hPlain : Hostmask.nickOf new = new) (hOurs : n.mapping.fold new = p.own)
    (hKnown : p.Knows (n.mapping.fold (Hostmask.nickOf old)))
    (hOther : n.mapping.fold (Hostmask.nickOf old) ≠ p.own) (x : String) :
    (n.rename old new).2.isOwn x = false := by
  have hConsistent := h.consistent.rename old new
  obtain ⟨me, own, hMe, hOwn, hOwnNick⟩ := h.own
  rcases n.rename_cases old new with ⟨hNone, _⟩ | ⟨id, hId, he⟩
  · exact absurd hKnown ((h.findId?_eq_none_iff old).mp hNone)
  · have hNe : me ≠ id := by
      intro hSame
      exact hOther (((h.fold_nick_iff hId hOwn).mpr hSame).symm.trans hOwnNick)
    have hw := withdraws_evict h.consistent id new
    have hFind : (n.evict id new).roster.findId? old = some id := h.findId?_evict hId hPlain
    have hByNick := Roster.byNick_rename hFind new
    have hRecord := Roster.get?_rename hFind new me
    rw [if_neg hNe] at hRecord
    rw [he] at hConsistent ⊢
    by_contra hTrue
    have hIs : (n.evict id new).own.isSome = true ∧
        ((n.evict id new).roster.rename old new).2.findId? x = (n.evict id new).own := by
      simpa [isOwn, findId?] using hTrue
    rw [hw.own_eq, hMe] at hIs
    -- Our record has the old nickname still, and the index leads from there to the other user.
    obtain ⟨d, hd, hFold⟩ := hConsistent.roster.index hIs.2
    have hd' : (n.evict id new).roster.get? me = some d := hRecord.symm.trans hd
    obtain ⟨d₀, hd₀, hSame, _⟩ := hw.trims.record hd'
    rw [hOwn] at hd₀
    cases hd₀
    have hTaken := hIs.2
    rw [Roster.findId?, ← hFold, Roster.mapping_rename, hByNick] at hTaken
    have hEvicted : (n.evict id new).roster.mapping = n.mapping :=
      hw.trims.mapping.trans h.consistent.rosterMapping
    rw [hEvicted, hSame, hOwnNick, hOurs, if_pos rfl] at hTaken
    exact hNe (Option.some.inj hTaken).symm

end Tracks

end Irc.Network
