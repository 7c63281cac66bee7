import Irc.Proofs.Network.Collection
import Irc.Proofs.Session.Dealings
import Irc.Proofs.Session.TableRebuild
/-! Records of users go exactly when there is no more reason to keep them. A record is our own, kept
alive on request, or that of a user in some channel, and it goes only with a user who quits, who
makes place for another one of the same nickname, or who loses the last of these reasons. -/
namespace Irc

namespace Network

/-- What becomes of the records in a step that may take some away, and why it takes one away. -/
structure Collects (n n' : Network) (why : ClientId → Prop) : Prop where
  consistent : n'.Consistent
  own : n'.own = n.own
  tidy : n.roster.Tidy n.own → n'.roster.Tidy n'.own
  removed : ∀ {id c}, n.roster.get? id = some c → n'.roster.get? id = none →
    n.own ≠ some id ∧ why id

/-- A step that takes no record away. -/
abbrev Retains (n n' : Network) : Prop := n.Collects n' fun _ => False

section Collects

variable {n n' n'' : Network} {why : ClientId → Prop}

/-- Records that go for one reason go for a weaker one. -/
theorem Collects.congr (h : n.Collects n' why) {why' : ClientId → Prop}
    (hWhy : ∀ id, why id → why' id) : n.Collects n' why' :=
  { h with removed := fun hc hNone => (h.removed hc hNone).imp_right (hWhy _) }

theorem Retains.collects (h : n.Retains n') : n.Collects n' why := h.congr fun _ => False.elim

/-- Two operations one after the other, if each record goes for one of the reasons. -/
theorem Collects.trans (h : n.Collects n' why) (h' : n'.Collects n'' why) :
    n.Collects n'' why where
  consistent := h'.consistent
  own := h'.own.trans h.own
  tidy hTidy := h'.tidy (h.tidy hTidy)
  removed := by
    intro id c hc hNone
    cases hc' : n'.roster.get? id with
    | none => exact h.removed hc hc'
    | some c' =>
        have hWhy := h'.removed hc' hNone
        rwa [h.own] at hWhy

/-- Announcements are of no importance to records. -/
theorem retains_of_records (hn : n.Consistent) (hMapping : n'.mapping = n.mapping)
    (hRoster : n'.roster = n.roster) (hChannels : n'.channels = n.channels)
    (hOwn : n'.own = n.own) : n.Retains n' where
  consistent := by
    refine ⟨?_, ?_, ?_, ?_, ?_⟩
    · rw [hRoster, hMapping]
      exact hn.rosterMapping
    · rw [hChannels, hMapping]
      exact hn.tableMapping
    · rw [hRoster]
      exact hn.roster
    · rw [hChannels]
      exact hn.table
    · rw [hChannels, hRoster]
      exact hn.linked
  own := hOwn
  tidy hTidy := by
    rw [hRoster, hOwn]
    exact hTidy
  removed := by
    intro id c hc hNone
    rw [hRoster, hc] at hNone
    cases hNone

theorem retains_refl (hn : n.Consistent) : n.Retains n := retains_of_records hn rfl rfl rfl rfl

/-- Notes about users and channels make no record go. -/
theorem retains_of_sameStanding (hn : n.Consistent) (same : n.SameStanding n') : n.Retains n' where
  consistent := same.consistent hn
  own := same.own_eq
  tidy := same.tidy
  removed := by
    intro id c hc hNone
    rw [(same.get?_eq_none_iff id).mp hNone] at hc
    cases hc

/-- Nobody goes because someone comes in. -/
theorem retains_join (hn : n.Consistent) (channel mask : String) :
    n.Retains (n.join channel mask).2 where
  consistent := hn.join channel mask
  own := rfl
  tidy hTidy := tidy_join hTidy channel mask
  removed := by
    intro id c hc hNone
    obtain ⟨⟨d, hd, _⟩, hOthers⟩ := get?_join hn channel mask
    by_cases hId : id = (n.join channel mask).1
    · rw [hId, hd] at hNone
      cases hNone
    · rw [hOthers id hId, hc] at hNone
      cases hNone

/-- Where memberships go, our own record does not. -/
theorem collects_of_withdraws (hn : n.Consistent) {dropped : String → Prop}
    {gone : String → ClientId → Prop} (hWithdraws : Withdraws dropped gone n n')
    (hWhy : ∀ {id c}, n.roster.get? id = some c → n'.roster.get? id = none → why id) :
    n.Collects n' why where
  consistent := hWithdraws.consistent hn
  own := hWithdraws.own_eq
  tidy hTidy := by
    rw [hWithdraws.own_eq]
    exact hWithdraws.trims.tidy hTidy
  removed := by
    intro id c hc hNone
    refine ⟨fun hOwn => ?_, hWhy hc hNone⟩
    obtain ⟨c', hc'⟩ := hWithdraws.trims.ours hOwn hc
    rw [hNone] at hc'
    cases hc'

/-- Of a PART, a record goes that was kept for this membership alone. -/
theorem collects_part (hn : n.Consistent) (channel : String) (id : ClientId) :
    n.Collects (n.part channel id).2 (n.Orphaned channel) :=
  collects_of_withdraws hn (withdraws_part hn channel id) fun hc hNone =>
    orphaned_of_withdraws hn (withdraws_part hn channel id) (fun _ _ hGone => hGone.1)
      (n.spares_part channel id) hc hNone

/-- If many users leave one channel, those records go that were kept for it alone. -/
theorem collects_foldl_part (hn : n.Consistent) (channel : String) (ids : List ClientId) :
    n.Collects (ids.foldl (fun n id => (n.part channel id).2) n) (n.Orphaned channel) :=
  collects_of_withdraws hn (withdraws_foldl_part hn channel ids) fun hc hNone =>
    orphaned_of_withdraws hn (withdraws_foldl_part hn channel ids) (fun _ _ hGone => hGone.1)
      (spares_foldl_part channel ids n) hc hNone

/-- When a channel is forgotten, those go who were in no other one. -/
theorem collects_removeChannel (hn : n.Consistent) (channel : String) :
    n.Collects (n.removeChannel channel).2 (n.Orphaned channel) :=
  collects_of_withdraws hn (withdraws_removeChannel hn channel) fun hc hNone =>
    orphaned_of_withdraws hn (withdraws_removeChannel hn channel) (fun _ _ hGone => hGone)
      (n.spares_removeChannel channel) hc hNone

/-- Only the record of a user who leaves can go. -/
theorem collects_quit (hn : n.Consistent) (id : ClientId) : n.Collects (n.quit id).2 (· = id) :=
  collects_of_withdraws hn (withdraws_quit hn id) fun {i c} hc hNone => by
    by_contra hOther
    rw [(n.get?_quit id).1 i hOther, hc] at hNone
    cases hNone

/-- Only the record of whoever makes place can go. -/
theorem collects_evict (hn : n.Consistent) (id : ClientId) (nick : String) :
    n.Collects (n.evict id nick) (n.Evicts id nick) :=
  collects_of_withdraws hn (withdraws_evict hn id nick) fun {i c} hc hNone => by
    by_contra hOther
    rw [(n.get?_evict id nick).1 i hOther, hc] at hNone
    cases hNone

/-- Of a renaming, the record goes of whoever had the new nickname. -/
theorem collects_rename (hn : n.Consistent) (old new : String) :
    n.Collects (n.rename old new).2 fun i =>
      ∃ id, n.findId? old = some id ∧ n.Evicts id new i := by
  rcases n.rename_cases old new with ⟨_, he⟩ | ⟨id, hFind, he⟩
  · rw [he]
    exact (retains_refl hn).collects
  · have hEvicted := collects_evict hn id new
    refine ⟨hn.rename old new, ?_, fun hTidy => tidy_rename hn hTidy old new, ?_⟩
    · rw [he]
      exact hEvicted.own
    · intro i c hc hNone
      rw [he] at hNone
      have hGone : (n.evict id new).roster.get? i = none := by
        rw [← Option.map_eq_none_iff (f := Client.hold)]
        have hHold := (n.evict id new).roster.hold?_rename old new i
        rw [Roster.hold?, Roster.hold?] at hHold
        rw [← hHold, hNone, Option.map_none]
      obtain ⟨hOwn, hWhy⟩ := hEvicted.removed hc hGone
      exact ⟨hOwn, id, hFind, hWhy⟩

/-- A record goes that is not kept alive any more and has no channel. -/
theorem collects_setKeptAlive (hn : n.Consistent) (nick : String) (keep : Bool) :
    n.Collects (n.setKeptAlive nick keep).2 fun id =>
      keep = false ∧ n.findId? nick = some id ∧ ∀ key, ¬n.channels.HasMember key id where
  consistent := hn.setKeptAlive nick keep
  own := by
    rcases setKeptAlive_cases hn.roster nick keep with he | ⟨id, _, he⟩
    · rw [he]
    · rw [he]
      cases keep with
      | true => rfl
      | false => exact (spares_forgetOrphan _ id).own
  tidy hTidy := tidy_setKeptAlive hn.roster hTidy nick keep
  removed hc hNone := by
    obtain ⟨hKeep, hFind, hOwn, hNowhere⟩ := released_of_setKeptAlive hn hc hNone
    exact ⟨hOwn, hKeep, hFind, hNowhere⟩

end Collects

end Network

namespace Session

variable {n n' : Network}

/-- Why a line makes a record go. -/
inductive Gone (n : Network) (line : Line) (id : ClientId) : Prop
  | quit (command : line.command = "QUIT") (who : n.findId? line.source.nick = some id)
  /-- Another user has taken the nickname. -/
  | evicted (nick : String) (other : ClientId) (command : line.command = "NICK")
      (name : line.param? 0 = some nick) (who : n.findId? line.source.nick = some other)
      (taken : n.Evicts other nick id)
  /-- The user is taken out of the last channel. -/
  | left (channel : String) (command : line.command ∈ ["JOIN", "PART", "KICK"])
      (where_ : line.param? 0 = some channel) (orphaned : n.Orphaned channel id)

/-- Leaving a channel, for us or for someone else, lets go of those who were there alone. -/
theorem collects_leave (hn : n.Consistent) (channel nick : String) :
    n.Collects (leave n channel nick) (n.Orphaned channel) := by
  unfold leave
  split
  · exact Network.collects_removeChannel hn channel
  · split
    · exact Network.collects_part hn channel _
    · exact (Network.retains_refl hn).collects

/-- Our own JOIN lets go of those who were in this channel only. -/
theorem collects_opened (hn : n.Consistent) (channel mask : String) :
    n.Collects (opened n channel mask) (n.Orphaned channel) := by
  unfold opened
  split
  · have hLeft := Network.collects_foldl_part hn channel
      (((n.channel? channel).map fun c => c.members.keys).getD [])
    have hSame : ∀ m : Network, m.SameStanding
        (m.modifyChannel channel fun c => { c with namesComplete := false }) :=
      fun m => m.sameStanding_modifyChannel channel fun _ => Channel.keeps_of_members rfl rfl
    exact hLeft.trans (Network.retains_of_sameStanding hLeft.consistent (hSame _)).collects
  · exact (Network.retains_refl hn).collects

theorem retains_listName (hn : n.Consistent) (channel : String) (entry : List Char) :
    n.Retains (listName channel n entry) := by
  unfold listName
  simp only
  split
  · exact Network.retains_refl hn
  · have hJoined := Network.retains_join hn channel
      (String.ofList (splitGlyphs n.modes ModeMask.none entry).2)
    exact hJoined.trans (Network.retains_of_sameStanding hJoined.consistent
      (Network.sameStanding_modifyChannel _ channel fun c => Channel.keeps_modify c _ fun _ => rfl))

/-- A list of names lets go of nobody. -/
theorem retains_foldl_listName (hn : n.Consistent) (channel : String)
    (entries : List (List Char)) : n.Retains (entries.foldl (listName channel) n) := by
  induction entries generalizing n with
  | nil => exact Network.retains_refl hn
  | cons entry rest ih =>
      have hOne := retains_listName hn channel entry
      exact hOne.trans (ih hOne.consistent)

/-- Every line but a 001 line leaves each record with a reason to be kept, and takes a record away
for no other reason than these. -/
theorem Deals.collects {line : Line} (h : Deals n line n') (hn : n.Consistent)
    (hWelcome : line.numeric? ≠ some 1) : n.Collects n' (Gone n line) := by
  cases h with
  | standing same => exact (Network.retains_of_sameStanding hn same).collects
  | announcing support info family modes announced terms =>
      have hRetains : n.Retains { n with support, info, family, modes } :=
        Network.retains_of_records hn rfl rfl rfl rfl
      rw [terms]
      exact hRetains.collects
  | greeting nick code => exact absurd code hWelcome
  | joining channel mask command where_ same =>
      have hOpened := (collects_opened hn channel mask).congr fun _ hOrphaned =>
        Gone.left channel (command ▸ by simp) where_ hOrphaned
      have hJoined := hOpened.trans (Network.retains_join hOpened.consistent channel mask).collects
      exact hJoined.trans (Network.retains_of_sameStanding hJoined.consistent same).collects
  | leaving channel nick command where_ =>
      refine (collects_leave hn channel nick).congr fun _ hOrphaned =>
        Gone.left channel ?_ where_ hOrphaned
      rcases command with hPart | hKick
      · rw [hPart]
        simp
      · rw [hKick]
        simp
  | naming channel entries => exact (retains_foldl_listName hn channel entries).collects
  | quitting id command who =>
      exact (Network.collects_quit hn id).congr fun i hSame => .quit command (hSame ▸ who)
  | takingNick new command name =>
      refine (Network.collects_rename hn _ new).congr fun i hWhy => ?_
      obtain ⟨other, hWho, hTaken⟩ := hWhy
      exact .evicted new other command name hWho hTaken

/-- Why a deed makes a record go: a line does, or someone lets the record go of a user who is in
no channel. -/
inductive Forgets (n : Network) (id : ClientId) : Deed → Prop
  | line {raw : String} {now : Moment} {line : Line} (read : Picture.lineOf? raw = some line)
      (gone : Gone n line id) : Forgets n id (.text raw now)
  | released {nick : String} (who : n.findId? nick = some id)
      (nowhere : ∀ key, ¬n.channels.HasMember key id) :
      Forgets n id (.operation (.setKeptAlive nick false))

/-- A text that is no 001 line, or a request to keep a record or to let it go. -/
def Deed.Ordinary : Deed → Prop
  | .text raw _ => ∀ line ∈ Picture.lineOf? raw, line.numeric? ≠ some 1
  | .operation (.setKeptAlive _ _) => True
  | .operation _ => False

/-- Where announcements that are settled do not change the mapping, they touch no record. -/
theorem settledFor_of_mapping_eq {s : Session} {line : Line}
    (h : (s.settledFor line).network.mapping = s.network.mapping) :
    (s.settledFor line).network = { s.network with modes := (s.settledFor line).network.modes } := by
  unfold settledFor at h ⊢
  split
  next hPending =>
    rw [if_pos hPending] at h
    have hEq : s.settleSupport.session.network =
        { s.network.underAnnounced with modes := s.settleSupport.session.network.modes } := rfl
    rw [Network.underAnnounced_of_mapping_eq h] at hEq
    exact hEq
  next => rfl

/-- Neither do modes matter to why a record goes. -/
theorem Gone.of_modes {modes : ModeTable} {line : Line} {id : ClientId}
    (h : Gone { n with modes := modes } line id) : Gone n line id := by
  cases h with
  | quit command who => exact .quit command who
  | evicted nick other command name who taken => exact .evicted nick other command name who taken
  | left channel command where_ orphaned =>
      exact .left channel command where_ ⟨orphaned.own, orphaned.kept, orphaned.only⟩

/-- In one deed, as long as the mapping stays, each record that goes has its reason. -/
theorem collects_take {s : Session} (hn : s.network.Consistent) {deed : Deed}
    (hOrdinary : deed.Ordinary)
    (hMapping : (deed.take s).network.mapping = s.network.mapping) :
    s.network.Collects (deed.take s).network fun id => Forgets s.network id deed := by
  cases deed with
  | operation op =>
      cases op with
      | setKeptAlive nick keep =>
          refine (Network.collects_setKeptAlive hn nick keep).congr fun id hWhy => ?_
          obtain ⟨rfl, hWho, hNowhere⟩ := hWhy
          exact .released hWho hNowhere
      | _ => exact hOrdinary.elim
  | text raw now =>
      rw [Deed.take] at hMapping ⊢
      cases hLine : Picture.lineOf? raw with
      | none =>
          obtain ⟨error, hStep⟩ := s.dispatch_of_lineOf?_eq_none now hLine
          rw [hStep]
          exact (Network.retains_refl hn).collects
      | some line =>
          rw [s.dispatch_eq_handled now hLine] at hMapping ⊢
          have hDeals := (((s.noticing now).settledFor line).does_handled line now).deals
          have hSettled := settledFor_of_mapping_eq (s := s.noticing now)
            (hDeals.mapping_eq.symm.trans hMapping)
          have hFirst : s.network.Retains ((s.noticing now).settledFor line).network := by
            rw [hSettled]
            exact Network.retains_of_records hn rfl rfl rfl rfl
          refine hFirst.collects.trans ((hDeals.collects hFirst.consistent ?_).congr ?_)
          · exact hOrdinary line hLine
          · intro id hGone
            rw [hSettled] at hGone
            exact .line hLine hGone.of_modes

theorem through_append_singleton (s : Session) (deeds : List Deed) (deed : Deed) :
    s.through (deeds ++ [deed]) = deed.take (s.through deeds) := through_append s deeds [deed]

/-- The last deed of a run, seen from the state before it. -/
theorem collects_last {s : Session} {deeds : List Deed} {deed : Deed}
    (hn : (s.through deeds).network.Consistent) (hOrdinary : deed.Ordinary)
    (hMapping : ∀ before, before <+: deeds ++ [deed] →
      (s.through before).network.mapping = s.network.mapping) :
    (s.through deeds).network.Collects (s.through (deeds ++ [deed])).network
      fun id => Forgets (s.through deeds).network id deed := by
  have hBefore := hMapping deeds (List.prefix_append deeds [deed])
  have hAfter := hMapping (deeds ++ [deed]) (List.prefix_refl _)
  rw [through_append_singleton] at hAfter ⊢
  exact collects_take hn hOrdinary (hAfter.trans hBefore.symm)

/-- After every run in which the mapping stays, both sides agree and every record has a reason. -/
theorem consistent_through {s : Session} (hn : s.network.Consistent)
    (hTidy : s.network.roster.Tidy s.network.own) {deeds : List Deed}
    (hOrdinary : ∀ deed ∈ deeds, deed.Ordinary)
    (hMapping : ∀ before, before <+: deeds →
      (s.through before).network.mapping = s.network.mapping) :
    (s.through deeds).network.Consistent ∧
      (s.through deeds).network.roster.Tidy (s.through deeds).network.own := by
  induction deeds using List.reverseRecOn with
  | nil => exact ⟨hn, hTidy⟩
  | append_singleton deeds deed ih =>
      obtain ⟨hConsistent, hKept⟩ := ih
        (fun d hIn => hOrdinary d (List.mem_append_left _ hIn))
        fun before hPrefix => hMapping before (hPrefix.trans (List.prefix_append deeds [deed]))
      have hLast := collects_last hConsistent
        (hOrdinary deed (List.mem_append_right _ List.mem_cons_self)) hMapping
      exact ⟨hLast.consistent, hLast.tidy hKept⟩

/-- From a state in which every record has a reason to be kept, after any number of texts that are
no 001 lines and do not change the case mapping, and of requests to keep records or let them go:
every record has a reason to be kept, and the last deed has taken a record away only if it was not
ours and the deed was its user's leaving the network, another user's taking of the nickname, or the
end of the last reason to keep it; and then no channel has the user any more. -/
theorem forgets_of_run {s : Session} (hn : s.network.Consistent)
    (hTidy : s.network.roster.Tidy s.network.own) (deeds : List Deed) (deed : Deed)
    (hOrdinary : ∀ d ∈ deeds ++ [deed], d.Ordinary)
    (hMapping : ∀ before, before <+: deeds ++ [deed] →
      (s.through before).network.mapping = s.network.mapping) :
    let n := (s.through deeds).network
    let n' := (s.through (deeds ++ [deed])).network
    n'.Consistent ∧ n'.roster.Tidy n'.own ∧
      ∀ id c, n.roster.get? id = some c → n'.roster.get? id = none →
        n.own ≠ some id ∧ Forgets n id deed ∧ ∀ key, ¬n'.channels.HasMember key id := by
  intro n n'
  obtain ⟨hConsistent, hKept⟩ := consistent_through hn hTidy
    (fun d hIn => hOrdinary d (List.mem_append_left [deed] hIn))
    fun before hPrefix => hMapping before (hPrefix.trans (List.prefix_append deeds [deed]))
  have hLast := collects_last hConsistent
    (hOrdinary deed (List.mem_append_right _ List.mem_cons_self)) hMapping
  refine ⟨hLast.consistent, hLast.tidy hKept, fun id c hc hNone => ?_⟩
  obtain ⟨hOwn, hForgets⟩ := hLast.removed hc hNone
  refine ⟨hOwn, hForgets, fun key hMember => ?_⟩
  obtain ⟨c', hc'⟩ := hLast.consistent.get?_of_hasMember hMember
  rw [hNone] at hc'
  cases hc'

/-- A record that is kept alive outlives the user's last channel, and goes when another user takes
the nickname. -/
theorem forgets_of_run_of_eviction :
    let n := Network.new.run [.setOwn "me", .join "#c" "me!u@h", .join "#c" "a!u@h", .join "#c" "b!u@h"]
    let s := (new {} fun _ => .standard).withNetwork n
    let deeds : List Deed :=
      [.operation (.setKeptAlive "a" true), .text ":a!u@h PART #c" ⟨0, 0⟩, .text "" ⟨1, 0⟩]
    let deed : Deed := .text ":b!u@h NICK a" ⟨2, 0⟩
    n.Consistent ∧ n.roster.Tidy n.own ∧ (∃ c, (s.through deeds).network.roster.get? 1 = some c) ∧
      (s.through (deeds ++ [deed])).network.roster.get? 1 = none ∧
      Forgets (s.through deeds).network 1 deed := by
  intro n s deeds deed
  have hn : n.Consistent := (Network.consistent_and_continues_run Network.consistent_new _).1
  have hReasons : ∀ e ∈ n.roster.clients.entries, n.own = some e.1 ∨ e.2.keptAlive = true ∨
      ∃ key ∈ e.2.channels.keys, e.2.channels.contains key = true := by decide +kernel
  have hTidy : n.roster.Tidy n.own := by
    intro id c hc
    exact (hReasons (id, c) (SortedMap.mem_entries_iff.mpr hc)).imp_right
      (Or.imp_right fun ⟨key, _, hKey⟩ => ⟨key, hKey⟩)
  have hOrdinary : ∀ d ∈ deeds ++ [deed], d.Ordinary := by
    refine List.forall_mem_cons.mpr ⟨trivial, List.forall_mem_cons.mpr ⟨?_,
      List.forall_mem_cons.mpr ⟨?_, List.forall_mem_singleton.mpr ?_⟩⟩⟩
    all_goals
      show ∀ line ∈ Picture.lineOf? _, line.numeric? ≠ some 1
      decide +kernel
  have hMapping : ∀ before ∈ (deeds ++ [deed]).inits,
      (s.through before).network.mapping = s.network.mapping := by decide +kernel
  have hSome : ((s.through deeds).network.roster.get? 1).isSome = true := by decide +kernel
  have hNone : (s.through (deeds ++ [deed])).network.roster.get? 1 = none := by decide +kernel
  obtain ⟨c, hc⟩ := Option.isSome_iff_exists.mp hSome
  obtain ⟨_, _, hGone⟩ := forgets_of_run (s := s) hn hTidy deeds deed hOrdinary
    fun before hPrefix => hMapping before ((List.mem_inits ..).mpr hPrefix)
  exact ⟨hn, hTidy, ⟨c, hc⟩, hNone, (hGone 1 c hc hNone).2.1⟩

end Session

end Irc
