import Irc.Proofs.Network.Departures
import Irc.Proofs.Session.Dealings
/-! The two lines by which many memberships end at once. Our own JOIN takes everyone out of the
channel before it brings us in, for it was missed that we had left; a QUIT takes one user out of
every channel. What either of them leaves alone is said in full. -/
namespace Irc

namespace Network

/-- What becomes of a network when we come into a channel. Nobody else is known to be there, and
those who were known for nothing else are forgotten. -/
structure StartsAfresh (n n' : Network) (channel : String) (me : ClientId) : Prop where
  frame : n' = { n with roster := n'.roster, channels := n'.channels }
  consistent : n'.Consistent
  here : n'.channels.channels.get? (n.channels.key channel) =
    some { n.channels.getOrNew channel with
      members := SortedMap.empty.insert me { client := me }
      namesComplete := false }
  elsewhere : ∀ key, key ≠ n.channels.key channel →
    n'.channels.channels.get? key = n.channels.channels.get? key
  gone : ∀ {id c}, n.roster.get? id = some c → (n'.roster.get? id = none ↔
    n.channels.HasMember (n.channels.key channel) id ∧ n.Orphaned channel id)
  /-- Other records lose the channel's key, if they had it. -/
  record : ∀ {id c'}, id ≠ me → n'.roster.get? id = some c' → ∃ c, n.roster.get? id = some c ∧
    c' = { c with channels := c.channels.erase (n.channels.key channel) }
  /-- A nickname leads where it led, unless the user is gone. -/
  found : ∀ nick, n'.findId? nick =
    (n.findId? nick).filter fun id => (n'.roster.get? id).isSome

/-- What becomes of a network when a user leaves it. Our own record is kept, without channels. -/
structure Departs (n n' : Network) (id : ClientId) : Prop where
  frame : n' = { n with roster := n'.roster, channels := n'.channels }
  consistent : n'.Consistent
  nowhere : ∀ key, ¬n'.channels.HasMember key id
  channel : ∀ key, n'.channels.channels.get? key =
    (n.channels.channels.get? key).map (·.without id)
  other : ∀ i, i ≠ id → n'.roster.get? i = n.roster.get? i
  record : n'.roster.get? id =
    if n.own = some id then (n.roster.get? id).map fun c => { c with channels := SortedMap.empty }
    else none
  found : ∀ nick, n'.findId? nick =
    if n.findId? nick = some id ∧ n.own ≠ some id then none else n.findId? nick

theorem get?_self_quit (n : Network) (id : ClientId) :
    (n.quit id).2.roster.get? id =
      if n.own = some id then (n.roster.get? id).map fun c => { c with channels := SortedMap.empty }
      else none := by
  by_cases hOwn : n.own = some id
  · rw [if_pos hOwn]
    cases hc : n.roster.get? id with
    | none =>
        unfold quit
        rw [hc]
        exact hc
    | some c =>
        rw [quit_of_get? hc]
        simp only [rosterAfterQuit, if_pos hOwn, Roster.get?_modify, if_true, hc]
  · rw [if_neg hOwn, (n.get?_quit id).2 hOwn]

/-- A user who leaves is gone from every channel; all others, and our own record, stay. -/
theorem departs_quit {n : Network} (hn : n.Consistent) (id : ClientId) :
    n.Departs (n.quit id).2 id := by
  have hWithdraws := withdraws_quit hn id
  constructor
  case frame => exact hWithdraws.frame
  case consistent => exact hWithdraws.consistent hn
  case nowhere => exact fun key hMember => ((hWithdraws.hasMember key id).mp hMember).2 rfl
  case channel => exact get?_channels_quit hn id
  case other => exact (n.get?_quit id).1
  case record => exact n.get?_self_quit id
  case found =>
    intro nick
    have hFound : (n.quit id).2.findId? nick = _ := (prunes_quit hn.roster id).findId? nick
    rw [hFound]
    show Option.filter _ (n.findId? nick) = _
    cases hFind : n.findId? nick with
    | none => simp
    | some i =>
        obtain ⟨c, hc, _⟩ := hn.roster.index hFind
        rw [Option.filter_some]
        by_cases hi : i = id
        · subst hi
          rw [get?_self_quit, hc]
          by_cases hOwn : n.own = some i <;> simp [hOwn]
        · rw [(n.get?_quit id).1 i hi, hc]
          simp [hi]

/-- Someone who is known comes into a channel. -/
theorem join_of_findId? {n : Network} {mask : String} {id : ClientId}
    (h : n.findId? mask = some id) (channel : String) :
    n.join channel mask =
      (id,
        { n with
          roster := (n.roster.modify id fun c =>
              c.learn (Hostmask.ofString mask).ident (Hostmask.ofString mask).host).modify id
            fun c => { c with channels := c.channels.add (n.channels.key channel) }
          channels := (n.channels.create channel).modify channel fun c =>
            { c with members := c.members.insertIfNew id { client := id } } }) := by
  rcases n.roster.getOrCreate_cases mask with ⟨id', hFind, he⟩ | ⟨hNone, _⟩
  · rw [show n.roster.findId? mask = some id from h] at hFind
    cases hFind
    rw [join_eq, he]
  · rw [show n.roster.findId? mask = some id from h] at hNone
    cases hNone

end Network

namespace Session

variable {n : Network}

def listed (n : Network) (channel : String) : List ClientId :=
  ((n.channel? channel).map fun c => c.members.keys).getD []

theorem mem_listed_iff (n : Network) (channel : String) (id : ClientId) :
    id ∈ listed n channel ↔ n.channels.HasMember (n.channels.key channel) id := by
  unfold listed
  cases hc : n.channel? channel with
  | none =>
      exact iff_of_false List.not_mem_nil (Network.not_hasMember_of_channel? hc id)
  | some c =>
      rw [ChannelTable.hasMember_iff_of_get? hc]
      exact SortedMap.mem_keys_iff

theorem nodup_listed (n : Network) (channel : String) : (listed n channel).Nodup := by
  unfold listed
  cases n.channel? channel with
  | none => exact List.nodup_nil
  | some c => exact c.members.nodup_keys

def emptied (n : Network) (channel : String) : Network :=
  (listed n channel).foldl (fun n id => (n.part channel id).2) n

/-- To start afresh is to take out everyone and to wait for a new list of names. -/
theorem startAfresh_eq (n : Network) (channel : String) :
    startAfresh n channel =
      (emptied n channel).modifyChannel channel fun c => { c with namesComplete := false } := rfl

/-- All memberships of one channel are withdrawn, and no others. -/
theorem withdraws_emptied (hn : n.Consistent) (channel : String) :
    Network.Withdraws (fun _ => False)
      (fun key i => key = n.channels.key channel ∧ i ∈ listed n channel) n (emptied n channel) :=
  Network.withdraws_foldl_part hn channel _

/-- Whoever was in the channel loses it, or the record; nobody else's record changes. -/
theorem get?_emptied (n : Network) (channel : String) (id : ClientId) :
    (emptied n channel).roster.get? id =
      if id ∈ listed n channel then
        (n.roster.get? id).bind (Network.recordLeaving n.own (n.channels.key channel) id)
      else n.roster.get? id := by
  cases hc : n.channel? channel with
  | none =>
      have hNobody : listed n channel = [] := by rw [listed, hc]; rfl
      rw [emptied, hNobody, if_neg List.not_mem_nil, List.foldl_nil]
  | some c =>
      exact Network.get?_foldl_part (SortedMap.contains_of_get? hc) (nodup_listed n channel) id

theorem get?_channels_emptied (n : Network) (channel key : String) :
    (emptied n channel).channels.channels.get? key =
      if key = n.channels.key channel then
        (n.channels.get? channel).map fun c => { c with members := SortedMap.empty }
      else n.channels.channels.get? key := by
  rw [emptied, Network.get?_channels_foldl_part]
  cases hc : n.channels.get? channel with
  | none => rfl
  | some c =>
      have hListed : listed n channel = c.members.keys := by
        rw [listed, show n.channel? channel = some c from hc]
        rfl
      rw [hListed, Option.map_some, Option.map_some, Channel.foldl_without_members]

/-- Both sides agree that nobody is in the channel any more. -/
theorem consistent_startAfresh (hn : n.Consistent) (channel : String) :
    (startAfresh n channel).Consistent := by
  have hSame := (emptied n channel).sameStanding_modifyChannel channel
    (f := fun c => { c with namesComplete := false }) fun _ => Channel.keeps_of_members rfl rfl
  exact hSame.consistent ((withdraws_emptied hn channel).consistent hn)

/-- The channel itself keeps all but its members, and its list of names counts as incomplete. -/
theorem get?_channels_startAfresh (hn : n.Consistent) (channel key : String) :
    (startAfresh n channel).channels.channels.get? key =
      if key = n.channels.key channel then
        (n.channels.get? channel).map fun c =>
          { c with members := SortedMap.empty, namesComplete := false }
      else n.channels.channels.get? key := by
  have hKey := congrFun (withdraws_emptied hn channel).key_eq channel
  rw [startAfresh_eq, Network.modifyChannel, ChannelTable.get?_modify, ChannelTable.get?, hKey,
    get?_channels_emptied, get?_channels_emptied, if_pos rfl]
  by_cases hHere : key = n.channels.key channel
  · rw [if_pos hHere, if_pos hHere, Option.map_map]
    rfl
  · simp only [if_neg hHere]

/-- With someone who comes in then, the channel has this one member. -/
theorem get?_channels_entered (hn : n.Consistent) (id : ClientId) (channel key : String) :
    (((startAfresh n channel).channels.create channel).modify channel fun c =>
        { c with members := c.members.insertIfNew id { client := id } }).channels.get? key =
      if key = n.channels.key channel then
        some { n.channels.getOrNew channel with
          members := SortedMap.empty.insert id { client := id }
          namesComplete := false }
      else n.channels.channels.get? key := by
  have hKey : (startAfresh n channel).channels.key channel = n.channels.key channel :=
    congrFun (withdraws_emptied hn channel).key_eq channel
  rw [ChannelTable.get?_create_modify, hKey]
  by_cases hHere : key = n.channels.key channel
  · rw [if_pos hHere, if_pos hHere, ChannelTable.getOrNew, ChannelTable.get?, hKey,
      get?_channels_startAfresh hn, if_pos rfl, ChannelTable.getOrNew]
    cases n.channels.get? channel <;> rfl
  · rw [if_neg hHere, if_neg hHere, get?_channels_startAfresh hn, if_neg hHere]

/-- What an extended JOIN tells is noted in one record. -/
theorem learnAccount_eq (n : Network) (id : ClientId) (line : Line) :
    ∃ f, learnAccount n id line = n.modifyClient id f := by
  unfold learnAccount
  split
  · exact ⟨_, rfl⟩
  · refine ⟨fun c => c, ?_⟩
    rw [Network.modifyClient, Roster.modify, SortedMap.modify_eq_self fun _ _ => rfl]

/-- Users that are not there are as they are when everyone has left the channel. -/
theorem get?_emptied_eq_none_iff (hn : n.Consistent) (channel : String) {id : ClientId}
    {c : Client} (hc : n.roster.get? id = some c) :
    (emptied n channel).roster.get? id = none ↔
      n.channels.HasMember (n.channels.key channel) id ∧ n.Orphaned channel id := by
  rw [get?_emptied, ← mem_listed_iff, ← Network.recordLeaving_eq_none_iff hn channel hc, hc]
  by_cases hListed : id ∈ listed n channel
  · rw [if_pos hListed, and_iff_right hListed, Option.bind_some]
  · rw [if_neg hListed]
    exact iff_of_false (Option.some_ne_none c) fun hBoth => hListed hBoth.1

/-- A record that is still there has lost this one channel. -/
theorem record_of_get?_emptied (hn : n.Consistent) {channel : String} {id : ClientId}
    {c' : Client} (hc' : (emptied n channel).roster.get? id = some c') :
    ∃ c, n.roster.get? id = some c ∧
      c' = { c with channels := c.channels.erase (n.channels.key channel) } := by
  rw [get?_emptied] at hc'
  by_cases hListed : id ∈ listed n channel
  · rw [if_pos hListed, Option.bind_eq_some_iff] at hc'
    obtain ⟨c, hc, hLeft⟩ := hc'
    rw [Network.recordLeaving, Option.ite_none_left_eq_some] at hLeft
    exact ⟨c, hc, (Option.some.inj hLeft.2).symm⟩
  · rw [if_neg hListed] at hc'
    have hElsewhere : ¬c'.channels.contains (n.channels.key channel) = true := by
      rwa [mem_listed_iff, hn.linked, Roster.inChannel_iff_of_get? hc'] at hListed
    exact ⟨c', hc', by rw [SortedMap.erase_eq_self hElsewhere]⟩

/-- The channel that is left without members gets us as its only one. -/
theorem startsAfresh_join (hn : n.Consistent) {me : ClientId} (hOwn : n.own = some me)
    {mask : String} (hMask : n.findId? mask = some me) (channel : String) (line : Line) :
    n.StartsAfresh (learnAccount ((startAfresh n channel).join channel mask).2
      ((startAfresh n channel).join channel mask).1 line) channel me := by
  have hWithdraws := withdraws_emptied hn channel
  have hPrunes : n.roster.Prunes (startAfresh n channel).roster :=
    Network.prunes_foldl_part hn channel _
  have hRecord : ∃ c, (startAfresh n channel).roster.get? me = some c := by
    obtain ⟨c, hc, _⟩ := hn.roster.index hMask
    exact hWithdraws.trims.ours hOwn hc
  have hMe : (startAfresh n channel).findId? mask = some me := by
    have hFind : n.roster.findId? mask = some me := hMask
    rw [Network.findId?, hPrunes.findId?, hFind, Option.filter_some]
    exact if_pos (Option.isSome_iff_exists.mpr hRecord)
  have hConsistent := (learnAccount_sameStanding _ ((startAfresh n channel).join channel mask).1
    line).consistent ((consistent_startAfresh hn channel).join channel mask)
  rw [Network.join_of_findId? hMe] at hConsistent ⊢
  obtain ⟨f, hf⟩ := learnAccount_eq _ me line
  rw [hf] at hConsistent ⊢
  have hOther {id : ClientId} (hId : id ≠ me) : ∀ g h k : Client → Client,
      ((((startAfresh n channel).roster.modify me g).modify me h).modify me k).get? id =
        (emptied n channel).roster.get? id := by
    intro g h k
    rw [Roster.get?_modify, if_neg hId, Roster.get?_modify, if_neg hId, Roster.get?_modify,
      if_neg hId]
    rfl
  constructor
  case frame =>
    rw [Network.modifyClient, startAfresh_eq, Network.modifyChannel, hWithdraws.frame]
  case consistent => exact hConsistent
  case here => exact (get?_channels_entered hn me channel _).trans (if_pos rfl)
  case elsewhere =>
    exact fun key hOtherKey => (get?_channels_entered hn me channel key).trans (if_neg hOtherKey)
  case gone =>
    intro id c hc
    by_cases hId : id = me
    · subst hId
      obtain ⟨c', hc'⟩ := hRecord
      refine iff_of_false ?_ fun hBoth => hBoth.2.own hOwn
      simp [Network.modifyClient, Roster.get?_modify, hc']
    · exact (iff_of_eq (congrArg (· = none) (hOther hId ..))).trans
        (get?_emptied_eq_none_iff hn channel hc)
  case record =>
    intro id c' hId hc'
    exact record_of_get?_emptied hn ((hOther hId ..).symm.trans hc')
  case found => exact (((hPrunes.modify me _).modify me _).modify me f).findId?

/-- Our own JOIN starts a channel afresh: the channel has us as its only member, with no statuses
and no notes, and all else that was known of it stays. Other channels are as before. Those who were
listed are forgotten, unless they are elsewhere or kept alive. -/
theorem own_join_starts_afresh {s : Session} {raw channel mask : String} {line : Line}
    (hn : s.network.Consistent) (hSettled : s.supportPending = false)
    (hLine : Picture.lineOf? raw = some line) (hCommand : line.command = "JOIN")
    (hChannel : line.param? 0 = some channel) (hSource : line.source? = some mask)
    (hOurs : s.network.isOwn (Hostmask.nickOf mask) = true) (now : Moment) :
    ∃ me, s.network.own = some me ∧
      s.network.StartsAfresh (s.dispatch raw now).session.network channel me ∧
      (s.dispatch raw now).events = [.dataIn (bare raw), .selfJoined channel] := by
  have hWord : line.numeric? = none := by
    rw [Line.numeric?, hCommand]
    decide
  obtain ⟨me, hOwn⟩ : ∃ me, s.network.own = some me := by
    rw [Network.isOwn, Bool.and_eq_true] at hOurs
    exact Option.isSome_iff_exists.mp hOurs.1
  have hMask : s.network.findId? mask = some me := by
    have hFind : s.network.findId? (Hostmask.nickOf mask) = some me := by
      simpa [Network.isOwn, hOwn] using hOurs
    rwa [Network.findId?, Roster.findId?, Hostmask.nickOf_nickOf] at hFind
  have hJoined : ((s.noticing now).join line).session.network =
        learnAccount ((startAfresh s.network channel).join channel mask).2
          ((startAfresh s.network channel).join channel mask).1 line ∧
      ((s.noticing now).join line).events = [.selfJoined channel] := by
    have hHere : (s.noticing now).network.isOwn (Hostmask.ofString mask).nick = true := hOurs
    simp only [join, hChannel, hSource, hHere, if_true, and_true]
    rfl
  have hStep : s.dispatch raw now =
      ((s.noticing now).tells [.dataIn (bare raw)]).andThen fun s => s.join line := by
    rw [dispatch_of_word hSettled hLine hWord]
    simp only [command, hCommand]
  rw [hStep]
  refine ⟨me, hOwn, ?_, congrArg (Event.dataIn (bare raw) :: ·) hJoined.2⟩
  rw [Step.session_andThen, session_tells, hJoined.1]
  exact startsAfresh_join hn hOwn hMask channel line

/-- That we had left was missed, and we were still listed with two others, of whom one is elsewhere
too. -/
theorem own_join_starts_afresh_of_missed_part :
    let n := Network.new.run
      [.setOwn "me", .join "#c" "me", .join "#c" "ann", .join "#c" "bob", .join "#d" "ann"]
    let s := (new {} fun _ => .standard).withNetwork n
    let n' := (s.dispatch ":Me!u@h JOIN #C" ⟨1, 1⟩).session.network
    n.Consistent ∧ n.StartsAfresh n' "#C" 0 ∧ n'.client? "bob" = none ∧
      (n'.findId? "ann", n'.findId? "me") = (some 1, some 0) := by
  intro n s n'
  have hn : n.Consistent := (Network.consistent_and_continues_run Network.consistent_new _).1
  obtain ⟨me, hOwn, hAfresh, _⟩ := @own_join_starts_afresh s ":Me!u@h JOIN #C" "#C" "Me!u@h"
    ⟨[], some "Me!u@h", "JOIN", ["#C"]⟩ hn rfl (by decide +kernel) rfl rfl rfl (by decide +kernel)
    ⟨1, 1⟩
  have hMe : n.own = some 0 := by decide +kernel
  cases hMe.symm.trans hOwn
  exact ⟨hn, hAfresh, by decide +kernel, by decide +kernel⟩

/-- The QUIT of a known user is told of once in each channel, and then once. -/
theorem quit_of_findId? {s : Session} {line : Line} {id : ClientId}
    (h : s.network.findId? line.source.nick = some id) :
    s.quit line = (s.withNetwork (s.network.quit id).2).tells
      ((s.network.quit id).1.map (.channelQuit · line.source (line.param? 0)) ++
        [.quit line.source (line.param? 0)]) := by
  unfold quit
  simp only [h]

/-- The QUIT of anyone else is told of and does nothing. -/
theorem quit_of_unknown {s : Session} {line : Line}
    (h : s.network.findId? line.source.nick = none) :
    s.quit line = s.tells [.quit line.source (line.param? 0)] := by
  unfold quit
  simp only [h]
  rfl

/-- A QUIT is told of once for each channel that had the user as a member, under the channel's
name, and then once for the whole network. The user is in no channel any more and, unless it is us,
no longer known; all others and all else of the channels are as before. -/
theorem quit_fans_out {s : Session} {raw : String} {line : Line} (hn : s.network.Consistent)
    (hSettled : s.supportPending = false) (hLine : Picture.lineOf? raw = some line)
    (hCommand : line.command = "QUIT") (now : Moment) :
    let n := s.network
    let user := line.source
    let reason := line.param? 0
    let step := s.dispatch raw now
    ∃ names : List String,
      step.events = .dataIn (bare raw) ::
        (names.map (.channelQuit · user reason) ++ [.quit user reason]) ∧
      names.Nodup ∧
      (∀ name, name ∈ names ↔ ∃ id key c, n.findId? user.nick = some id ∧
        n.channels.channels.get? key = some c ∧ c.members.contains id = true ∧ c.name = name) ∧
      (∀ id, n.findId? user.nick = some id → n.Departs step.session.network id) ∧
      (n.findId? user.nick = none → names = [] ∧ step.session.network = n) := by
  intro n user reason step
  have hWord : line.numeric? = none := by
    rw [Line.numeric?, hCommand]
    decide
  have hStep : step = ((s.noticing now).tells [.dataIn (bare raw)]).andThen
      fun s => s.quit line := by
    refine (dispatch_of_word hSettled hLine hWord now).trans ?_
    simp only [command, hCommand]
  rw [hStep, Step.andThen, session_tells]
  cases hFind : n.findId? user.nick with
  | none =>
      have hQuit : (s.noticing now).quit line = _ := quit_of_unknown hFind
      rw [hQuit]
      refine ⟨[], rfl, List.nodup_nil, fun name => ?names, ?known, fun _ => ⟨rfl, rfl⟩⟩
      case names =>
        refine iff_of_false List.not_mem_nil ?_
        rintro ⟨id, key, c, hId, _⟩
        cases hId
      case known =>
        intro id hId
        cases hId
  | some id =>
      have hQuit : (s.noticing now).quit line = _ := quit_of_findId? hFind
      obtain ⟨hDistinct, hNames⟩ := Network.names_quit hn id
      rw [hQuit]
      refine ⟨(n.quit id).1, rfl, hDistinct, fun name => ?names, ?known, ?unknown⟩
      case names => simpa using hNames name
      case known =>
        rintro _ ⟨⟩
        exact Network.departs_quit hn id
      case unknown =>
        intro hNone
        cases hNone

/-- Of three users one leaves who was in two channels. -/
theorem quit_fans_out_of_two_channels :
    let n := Network.new.run
      [.setOwn "me", .join "#B" "me", .join "#B" "ann", .join "#a" "bob", .join "#a" "ann"]
    let s := (new {} fun _ => .standard).withNetwork n
    let step := s.dispatch ":Ann!u@h QUIT :bye" ⟨1, 1⟩
    let ann : Hostmask := ⟨"Ann", "u", "h"⟩
    n.Consistent ∧ n.Departs step.session.network 1 ∧ step.session.network.client? "ann" = none ∧
      step.events = [.dataIn ":Ann!u@h QUIT :bye", .channelQuit "#a" ann (some "bye"),
        .channelQuit "#B" ann (some "bye"), .quit ann (some "bye")] := by
  intro n s step ann
  have hn : n.Consistent := (Network.consistent_and_continues_run Network.consistent_new _).1
  obtain ⟨_, _, _, _, hDeparts, _⟩ := @quit_fans_out s ":Ann!u@h QUIT :bye"
    ⟨[], some "Ann!u@h", "QUIT", ["bye"]⟩ hn rfl (by decide +kernel) rfl ⟨1, 1⟩
  exact ⟨hn, hDeparts 1 (by decide +kernel), by decide +kernel, by decide +kernel⟩

end Session

end Irc
