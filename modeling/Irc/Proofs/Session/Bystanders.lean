import Irc.Proofs.Session.Tracking
import Irc.Session.Dispatch
/-! Lines that tell nothing of who is where. Many of them change what is known of users and
channels, but neither a nickname nor a membership, and not which channels there are. -/
namespace Irc.Session

/-- The session's records tell what the picture tells, and no announcement is waiting to take
effect. -/
structure Follows (s : Session) (p : Picture) : Prop where
  tracks : s.network.Tracks p
  settled : s.supportPending = false

namespace Follows

variable {s s' : Session} {p p' : Picture}

/-- Only the network and what is unsettled matter for whether a session follows. -/
theorem congr (h : s.Follows p) (hNetwork : s'.network = s.network)
    (hPending : s'.supportPending = s.supportPending) : s'.Follows p where
  tracks := by
    rw [hNetwork]
    exact h.tracks
  settled := hPending.trans h.settled

theorem withNetwork (h : s.Follows p) {n : Network} (hTracks : n.Tracks p') :
    (s.withNetwork n).Follows p' := ⟨hTracks, h.settled⟩

/-- What the server tells of itself is not about who is where. -/
theorem serverInfo (h : s.Follows p) (line : Line) : (s.serverInfo line).session.Follows p where
  tracks := by
    refine h.tracks.withInfo _ _ ?_
    rw [h.tracks.support]
    exact ⟨_, _, rfl⟩
  settled := h.settled

theorem motdEnd (h : s.Follows p) (missing : Bool) : (s.motdEnd missing).session.Follows p := by
  unfold Session.motdEnd
  cases s.ready with
  | true => exact h
  | false => exact h.congr rfl rfl

/-- A refusal is about a nickname that nobody has yet. -/
theorem nickInUse (h : s.Follows p) (line : Line) : (s.nickInUse line).session.Follows p := by
  unfold Session.nickInUse
  by_cases hRegistered : s.isRegistered = true
  · simp only [if_pos hRegistered]
    exact h
  · simp only [if_neg hRegistered]
    exact h.congr rfl rfl

/-- A PONG is not about users or channels. -/
theorem serverPong (h : s.Follows p) (line : Line) (now : Moment) :
    (s.serverPong line now).session.Follows p := by
  unfold Session.serverPong
  rcases s.ping.pong line.trailing now.millis with ⟨lag?, ping⟩
  cases lag? with
  | none => exact h
  | some lag => exact h.congr rfl rfl

/-- A topic belongs to a channel that is there. -/
theorem changeTopic (h : s.Follows p) (channel : String) (live : Bool) (f : Topic → Topic) :
    (s.changeTopic channel live f).session.Follows p := by
  unfold Session.changeTopic
  cases s.network.channel? channel with
  | none => exact h
  | some c =>
      exact h.withNetwork (h.tracks.modifyChannel channel fun _ => Channel.keeps_of_members rfl rfl)

theorem topic (h : s.Follows p) (line : Line) (now : Moment) :
    (s.topic line now).session.Follows p := by
  unfold Session.topic
  cases line.param? 0 with
  | none => exact h
  | some channel => exact h.changeTopic channel true _

theorem noTopic (h : s.Follows p) (line : Line) : (s.noTopic line).session.Follows p := by
  unfold Session.noTopic
  cases line.param? 1 with
  | none => exact h
  | some channel => exact h.changeTopic channel false _

theorem topicIs (h : s.Follows p) (line : Line) : (s.topicIs line).session.Follows p := by
  unfold Session.topicIs
  cases line.param? 1 with
  | none => exact h
  | some channel => exact h.changeTopic channel false _

theorem topicWhoTime (h : s.Follows p) (line : Line) : (s.topicWhoTime line).session.Follows p := by
  unfold Session.topicWhoTime
  cases line.param? 1 with
  | none => exact h
  | some channel => exact h.changeTopic channel false _

theorem creationTime (h : s.Follows p) (line : Line) : (s.creationTime line).session.Follows p := by
  unfold Session.creationTime
  split
  · exact h.withNetwork (h.tracks.modifyChannel _ fun _ => Channel.keeps_of_members rfl rfl)
  · exact h

theorem endOfNames (h : s.Follows p) (line : Line) : (s.endOfNames line).session.Follows p := by
  unfold Session.endOfNames
  cases line.param? 1 with
  | none => exact h
  | some channel =>
      by_cases hKnown : s.network.channels.contains channel = true
      · simp only [if_pos hKnown]
        exact h.withNetwork
          (h.tracks.modifyChannel channel fun _ => Channel.keeps_of_members rfl rfl)
      · simp only [if_neg hKnown]
        exact h

/-- A refused JOIN leaves things as they are. -/
theorem joinRefused (h : s.Follows p) (line : Line) (code : Nat) :
    (s.joinRefused line code).session.Follows p := by
  unfold Session.joinRefused
  cases line.param? 1 <;> exact h

theorem invite (h : s.Follows p) (line : Line) : (s.invite line).session.Follows p := by
  unfold Session.invite
  cases line.param? 1 <;> exact h

/-- Statuses of members change, but a status does not make a member. -/
theorem changeChannelModes (h : s.Follows p) (channel : String) (pieces : List String)
    (setter : String) (time : Int) (snapshot : Bool) :
    (s.changeChannelModes channel pieces setter time snapshot).session.Follows p := by
  unfold Session.changeChannelModes
  cases hc : s.network.channel? channel with
  | none => exact h
  | some c =>
      have hGet : s.network.channels.getOrNew channel = c := by
        rw [ChannelTable.getOrNew, show s.network.channels.get? channel = some c from hc]
        rfl
      have hKnown : s.network.mapping.fold channel ∈ p.channels := by
        rw [← h.tracks.contains_iff]
        exact SortedMap.contains_of_get? hc
      let base :=
        if snapshot then { c with flags := ModeMask.none, params := SortedMap.empty } else c
      have hBase : c.Keeps base := by
        cases snapshot with
        | true => exact Channel.keeps_of_members rfl rfl
        | false => exact Channel.Keeps.refl c
      have hAll := hBase.trans (Channel.keeps_applyChanges s.network.findId? setter time base
        (ModeChange.read s.network.modes pieces))
      rw [← hGet] at hAll
      have hPut := h.tracks.put channel hAll
      have hNote : p.note (s.network.mapping.fold channel) = p := by
        rw [Picture.note, Finset.insert_eq_of_mem hKnown]
      rw [hNote] at hPut
      exact h.withNetwork hPut

/-- Our own modes are no matter of channels. -/
theorem changeUserModes (h : s.Follows p) (nick modes : String) (snapshot : Bool) :
    (s.changeUserModes nick modes snapshot).session.Follows p := by
  unfold Session.changeUserModes
  split
  · exact h.withNetwork
      (h.tracks.modifyClient _ (fun _ => rfl) (fun _ => rfl) (fun _ => rfl) (fun _ => rfl))
  · exact h

/-- Modes change what members are, not who is one. -/
theorem mode (h : s.Follows p) (line : Line) (now : Moment) :
    (s.mode line now).session.Follows p := by
  unfold Session.mode
  cases line.params with
  | nil => exact h
  | cons target pieces =>
      by_cases hChannel : s.network.isChannelName target = true
      · simp only [if_pos hChannel]
        exact h.changeChannelModes _ _ _ _ _
      · simp only [if_neg hChannel]
        exact h.changeUserModes _ _ _

theorem channelModeIs (h : s.Follows p) (line : Line) (now : Moment) :
    (s.channelModeIs line now).session.Follows p := by
  unfold Session.channelModeIs
  split
  · exact h.changeChannelModes _ _ _ _ _
  · exact h

theorem userModeIs (h : s.Follows p) (line : Line) : (s.userModeIs line).session.Follows p := by
  unfold Session.userModeIs
  split
  · exact h.changeUserModes _ _ _
  · exact h

/-- Whatever is learned of a user leaves identity, nickname and channels as they are. -/
theorem learn (h : s.Follows p) (nick : String) {f : Client → Client}
    (hId : ∀ c, (f c).id = c.id) (hNick : ∀ c, (f c).nick = c.nick)
    (hChannels : ∀ c, (f c).channels = c.channels) (hKept : ∀ c, (f c).keptAlive = c.keptAlive) :
    (Session.learn s.network nick f).Tracks p := by
  unfold Session.learn
  cases s.network.findId? nick with
  | none => exact h.tracks
  | some id => exact h.tracks.modifyClient id hId hNick hChannels hKept

theorem learnOwn (h : s.Follows p) {f : Client → Client}
    (hId : ∀ c, (f c).id = c.id) (hNick : ∀ c, (f c).nick = c.nick)
    (hChannels : ∀ c, (f c).channels = c.channels) (hKept : ∀ c, (f c).keptAlive = c.keptAlive) :
    (Session.learnOwn s.network f).Tracks p := by
  unfold Session.learnOwn
  cases s.network.own with
  | none => exact h.tracks
  | some id => exact h.tracks.modifyClient id hId hNick hChannels hKept

/-- What a message tells of its sender is no nickname and no membership. -/
theorem learnSender (h : s.Follows p) (sender : Hostmask) :
    (Session.learnSender s.network sender).Tracks p :=
  h.learn sender.nick (fun _ => rfl) (fun _ => rfl) (fun _ => rfl) (fun _ => rfl)

/-- Marks of presence do not touch what a record stands for. -/
theorem presence_frame (flags : List Char) (c : Client) :
    (presence flags c).id = c.id ∧ (presence flags c).nick = c.nick ∧
      (presence flags c).channels = c.channels ∧ (presence flags c).keptAlive = c.keptAlive := by
  unfold presence
  split <;> exact ⟨rfl, rfl, rfl, rfl⟩

/-- A WHO reply tells of users that are known, and brings in nobody else. -/
theorem whoReply (h : s.Follows p) (line : Line) : (s.whoReply line).session.Follows p := by
  unfold Session.whoReply
  split
  case h_2 => exact h
  case h_1 channel ident host _ nick flags _ _ =>
    cases (s.network.client? nick).map Client.id with
    | none => exact h
    | some id =>
        have hLearned : (s.network.modifyClient id fun c =>
            { presence flags.toList (c.learn ident host) with
              realname := (whoRealname line).or
                (presence flags.toList (c.learn ident host)).realname }).Tracks p := by
          refine h.tracks.modifyClient id ?_ ?_ ?_ ?_
          · exact fun c => (presence_frame flags.toList (c.learn ident host)).1
          · exact fun c => (presence_frame flags.toList (c.learn ident host)).2.1
          · exact fun c => (presence_frame flags.toList (c.learn ident host)).2.2.1
          · exact fun c => (presence_frame flags.toList (c.learn ident host)).2.2.2
        exact h.withNetwork
          (hLearned.modifyChannel channel fun c => Channel.keeps_modify c id fun _ => rfl)

/-- A WHOIS reply brings in nobody, and renames nobody. -/
theorem whoisUser (h : s.Follows p) (line : Line) : (s.whoisUser line).session.Follows p := by
  unfold Session.whoisUser
  split
  · exact h.withNetwork
      (h.learn _ (fun _ => rfl) (fun _ => rfl) (fun _ => rfl) (fun _ => rfl))
  · exact h

theorem awayReply (h : s.Follows p) (line : Line) : (s.awayReply line).session.Follows p := by
  unfold Session.awayReply
  cases line.param? 1 with
  | none => exact h
  | some nick =>
      exact h.withNetwork
        (h.learn nick (fun _ => rfl) (fun _ => rfl) (fun _ => rfl) (fun _ => rfl))

theorem awayNotify (h : s.Follows p) (line : Line) : (s.awayNotify line).session.Follows p := by
  have hLearned := h.withNetwork (h.learn line.source.nick
    (f := fun c => { c with away := (line.param? 0).isSome, awayReason := line.param? 0 })
    (fun _ => rfl) (fun _ => rfl) (fun _ => rfl) (fun _ => rfl))
  unfold Session.awayNotify
  cases hReason : line.param? 0 with
  | none =>
      rw [hReason] at hLearned
      exact hLearned
  | some text =>
      rw [hReason] at hLearned
      exact hLearned

theorem ownAway (h : s.Follows p) (away : Bool) : (s.ownAway away).session.Follows p :=
  h.withNetwork (h.learnOwn (fun _ => rfl) (fun _ => rfl) (fun _ => rfl) (fun _ => rfl))

theorem ownAccount (h : s.Follows p) (account : Option String) :
    (s.ownAccount account).session.Follows p :=
  h.withNetwork (h.learnOwn (fun _ => rfl) (fun _ => rfl) (fun _ => rfl) (fun _ => rfl))

/-- A message tells of its sender at most. -/
theorem privmsg (h : s.Follows p) (line : Line) : (s.privmsg line).session.Follows p := by
  unfold Session.privmsg
  split
  · exact h.withNetwork (h.learnSender line.source)
  · exact h

theorem notice (h : s.Follows p) (line : Line) : (s.notice line).session.Follows p := by
  unfold Session.notice
  split
  · by_cases hServer : (line.source?.isNone || line.source.isServer || !s.isRegistered) = true
    · simp only [if_pos hServer]
      exact h
    · simp only [if_neg hServer]
      exact h.withNetwork (h.learnSender line.source)
  · exact h

end Follows

end Irc.Session
