import Irc.Proofs.Network.Standing
import Irc.Proofs.Session.Answers
/-! All that a line can do to what is known of the network, said once. Most lines change notes and
nothing else. The others name us, announce terms, or bring users in and take them out, and each of
them does it by one operation on the network. -/
namespace Irc

/-- The event may tell of a line: neither of the end of the connection nor of a table that was made
anew from announcements. -/
def Event.isOfLine : Event → Bool
  | .closed _ | .tableRebuilt => false
  | _ => true

/-- The numeric has this code, and the server has not claimed the code for lists. -/
def Line.Announces (line : Line) (support : Support) (code : Nat) : Prop :=
  line.numeric? = some code ∧ ListNumeric.ofCode? support code = none

instance (line : Line) (support : Support) (code : Nat) :
    Decidable (line.Announces support code) :=
  inferInstanceAs (Decidable (_ ∧ _))

namespace Session

/-- The network that someone comes into by a JOIN: our own starts the channel afresh. -/
def opened (n : Network) (channel mask : String) : Network :=
  if n.isOwn (Hostmask.ofString mask).nick then startAfresh n channel else n

/-- What may become of a network by a line. -/
inductive Deals (n : Network) (line : Line) : Network → Prop
  | standing {n' : Network} (same : n.SameStanding n') : Deals n line n'
  /-- The server announces terms. -/
  | announcing {n' : Network} (support : Support) (info : ServerInfo) (family : ServerFamily)
      (modes : ModeTable)
      (announced : line.Announces n.support 4 ∨ line.Announces n.support 5)
      (terms : n' = { n with support, info, family, modes }) : Deals n line n'
  | greeting (nick : String) (code : line.numeric? = some 1) : Deals n line (n.setOwn nick).2
  | joining {n' : Network} (channel mask : String) (command : line.command = "JOIN")
      (where_ : line.param? 0 = some channel)
      (same : ((opened n channel mask).join channel mask).2.SameStanding n') : Deals n line n'
  | leaving (channel nick : String) (command : line.command = "PART" ∨ line.command = "KICK")
      (where_ : line.param? 0 = some channel) : Deals n line (leave n channel nick)
  | naming (channel : String) (entries : List (List Char)) :
      Deals n line (entries.foldl (listName channel) n)
  | quitting (id : ClientId) (command : line.command = "QUIT")
      (who : n.findId? line.source.nick = some id) : Deals n line (n.quit id).2
  | takingNick (new : String) (command : line.command = "NICK") (name : line.param? 0 = some new) :
      Deals n line (n.rename line.source.nick new).2

/-- Leaving a channel changes no terms. -/
theorem terms_leave (n : Network) (channel nick : String) :
    (leave n channel nick).terms = n.terms := by
  unfold leave
  split
  · exact n.terms_removeChannel channel
  · split
    · exact n.terms_part channel _
    · rfl

theorem terms_opened (n : Network) (channel mask : String) :
    (opened n channel mask).terms = n.terms := by
  unfold opened
  split
  · exact n.terms_foldl_part channel _
  · rfl

theorem terms_foldl_listName (channel : String) (entries : List (List Char)) (n : Network) :
    (entries.foldl (listName channel) n).terms = n.terms := by
  induction entries generalizing n with
  | nil => rfl
  | cons entry rest ih =>
      have hOne : (listName channel n entry).terms = n.terms := by
        unfold listName
        simp only
        split <;> rfl
      exact (ih _).trans hOne

/-- Only an announcement changes the terms, and not the mapping before it is settled. -/
theorem Deals.terms_cases {n n' : Network} {line : Line} (h : Deals n line n') :
    n'.terms = n.terms ∨
      (line.Announces n.support 4 ∨ line.Announces n.support 5) ∧ n'.mapping = n.mapping := by
  cases h with
  | standing same => exact .inl same.terms_eq
  | announcing support info family modes announced terms => exact .inr ⟨announced, by rw [terms]⟩
  | greeting nick code => exact .inl (n.terms_setOwn nick)
  | joining channel mask command where_ same =>
      exact .inl (same.terms_eq.trans (terms_opened n channel mask))
  | leaving channel nick command where_ => exact .inl (terms_leave n channel nick)
  | naming channel entries => exact .inl (terms_foldl_listName channel entries n)
  | quitting id command who => exact .inl (n.terms_quit id)
  | takingNick new command name => exact .inl (n.terms_rename _ _)

/-- A line that announces nothing leaves the terms. -/
theorem Deals.terms_eq {n n' : Network} {line : Line} (h : Deals n line n')
    (hInfo : ¬line.Announces n.support 4) (hSupport : ¬line.Announces n.support 5) :
    n'.terms = n.terms :=
  h.terms_cases.resolve_right fun hAnnounced => hAnnounced.1.elim hInfo hSupport

/-- No line changes the mapping by itself; it takes effect when announcements are settled. -/
theorem Deals.mapping_eq {n n' : Network} {line : Line} (h : Deals n line n') :
    n'.mapping = n.mapping := by
  rcases h.terms_cases with hTerms | ⟨_, hMapping⟩
  · exact congrArg Prod.fst hTerms
  · exact hMapping

/-- A step that a line makes a session take once earlier announcements are settled. -/
structure Does (s : Session) (line : Line) (step : Step) : Prop where
  deals : Deals s.network line step.session.network
  pending : ¬line.Announces s.network.support 5 → step.session.supportPending = s.supportPending
  events : step.events.all Event.isOfLine = true

section Does

variable {s : Session} {line : Line}

/-- To tell of something is to do nothing to the network. -/
theorem does_tells {events : List Event} (h : events.all Event.isOfLine = true) :
    s.Does line (s.tells events) := ⟨.standing (.refl _), fun _ => rfl, h⟩

theorem does_stay : s.Does line s.stay := does_tells rfl

theorem does_learned {n : Network} {events : List Event} (same : s.network.SameStanding n)
    (h : events.all Event.isOfLine = true) : s.Does line ((s.withNetwork n).tells events) :=
  ⟨.standing same, fun _ => rfl, h⟩

theorem does_dealt {n : Network} {events : List Event} (deals : Deals s.network line n)
    (h : events.all Event.isOfLine = true) : s.Does line ((s.withNetwork n).tells events) :=
  ⟨deals, fun _ => rfl, h⟩

/-- Telling of the line first changes nothing. -/
theorem does_told {events : List Event} {f : Session → Step}
    (h : events.all Event.isOfLine = true) (hStep : s.Does line (f s)) :
    s.Does line ((s.tells events).andThen f) := by
  refine ⟨hStep.deals, hStep.pending, ?_⟩
  show (events ++ (f s).events).all Event.isOfLine = true
  rw [List.all_append, h, hStep.events]
  rfl

/-- A greeting tells us who we are. -/
theorem does_welcome (hCode : line.numeric? = some 1) : s.Does line (s.welcome line) := by
  unfold welcome
  simp only
  split <;> exact ⟨.greeting _ hCode, fun _ => rfl, rfl⟩

/-- What the server tells of itself is in effect at once. -/
theorem does_serverInfo (h : line.Announces s.network.support 4) :
    s.Does line (s.serverInfo line) :=
  ⟨.announcing s.network.support _ _ _ (.inl h) rfl, fun _ => rfl, rfl⟩

/-- What it announces in a 005 line is kept, and still to be settled. -/
theorem does_supportLine (h : line.Announces s.network.support 5) :
    s.Does line (s.supportLine line) :=
  ⟨.announcing _ s.network.info s.network.family s.network.modes (.inr h) rfl,
    fun hNot => absurd h hNot, rfl⟩

theorem does_motdEnd (missing : Bool) : s.Does line (s.motdEnd missing) := by
  unfold motdEnd
  split
  · exact does_tells rfl
  · exact ⟨.standing (.refl _), fun _ => rfl, rfl⟩

theorem does_nickInUse : s.Does line (s.nickInUse line) := by
  unfold nickInUse
  simp only
  split
  · exact does_tells rfl
  · exact ⟨.standing (.refl _), fun _ => rfl, rfl⟩

theorem does_serverPong (now : Moment) : s.Does line (s.serverPong line now) := by
  unfold serverPong
  simp only
  split
  · exact ⟨.standing (.refl _), fun _ => rfl, rfl⟩
  · exact does_stay

theorem learnAccount_sameStanding (n : Network) (id : ClientId) (line : Line) :
    n.SameStanding (learnAccount n id line) := by
  unfold learnAccount
  split
  · exact n.sameStanding_modifyClient _ (fun _ => rfl) (fun _ => rfl) (fun _ => rfl) fun _ => rfl
  · exact .refl n

/-- A JOIN brings one user into one channel; our own starts the channel afresh. -/
theorem does_join (hCommand : line.command = "JOIN") : s.Does line (s.join line) := by
  unfold join
  split
  next channel mask hChannel _ =>
    have hDeals := Deals.joining (n := s.network) channel mask hCommand hChannel
      (learnAccount_sameStanding ((opened s.network channel mask).join channel mask).2
        ((opened s.network channel mask).join channel mask).1 line)
    unfold opened at hDeals
    by_cases hOwn : s.network.isOwn (Hostmask.ofString mask).nick = true
    · simp only [if_pos hOwn] at hDeals ⊢
      exact ⟨hDeals, fun _ => rfl, rfl⟩
    · simp only [if_neg hOwn] at hDeals ⊢
      exact does_dealt hDeals rfl
  next => exact does_stay

/-- A PART takes the user who speaks out of the channel. -/
theorem does_part (hCommand : line.command = "PART") : s.Does line (s.part line) := by
  unfold part
  split
  · exact does_stay
  next channel hChannel => exact does_dealt (.leaving channel _ (.inl hCommand) hChannel) rfl

/-- A KICK takes out the user who is named, not the one who speaks. -/
theorem does_kick (hCommand : line.command = "KICK") : s.Does line (s.kick line) := by
  unfold kick
  split
  next channel nick rest hParams =>
    have hChannel : line.param? 0 = some channel := by
      rw [Line.param?, hParams]
      rfl
    exact does_dealt (.leaving channel nick (.inr hCommand) hChannel) rfl
  · exact does_stay

/-- A NAMES reply lists the users of a channel that is known, and does nothing for another one. -/
theorem does_names : s.Does line (s.names line) := by
  unfold names
  simp only
  split
  · exact does_stay
  next channel names _ =>
    split
    · exact does_dealt (.naming channel (Text.words names.toList)) rfl
    · exact does_stay

/-- A QUIT takes a user that is known out of the network. -/
theorem does_quit (hCommand : line.command = "QUIT") : s.Does line (s.quit line) := by
  unfold quit
  simp only
  cases hId : s.network.findId? line.source.nick with
  | none => exact does_dealt (.standing (.refl _)) (by simp [Event.isOfLine])
  | some id => exact does_dealt (.quitting id hCommand hId) (by simp [Event.isOfLine])

/-- A NICK renames the user who speaks. -/
theorem does_nick (hCommand : line.command = "NICK") : s.Does line (s.nick line) := by
  unfold nick
  split
  · exact does_stay
  next new hNew => exact ⟨.takingNick new hCommand hNew, fun _ => rfl, rfl⟩

theorem does_joinRefused (code : Nat) : s.Does line (s.joinRefused line code) := by
  unfold joinRefused
  split
  · exact does_stay
  · exact does_tells rfl

theorem does_endOfNames : s.Does line (s.endOfNames line) := by
  unfold endOfNames
  split
  · exact does_stay
  · split
    · exact does_learned (s.network.sameStanding_modifyChannel _ fun _ =>
        Channel.keeps_of_members rfl rfl) rfl
    · exact does_stay

theorem does_invite : s.Does line (s.invite line) := by
  unfold invite
  split
  · exact does_stay
  · exact does_tells rfl

/-- A topic is set on a channel that is known. -/
theorem does_changeTopic (channel : String) (live : Bool) (f : Topic → Topic) :
    s.Does line (s.changeTopic channel live f) := by
  unfold changeTopic
  split
  · exact does_stay
  · exact does_learned (s.network.sameStanding_modifyChannel _ fun _ =>
      Channel.keeps_of_members rfl rfl) rfl

theorem does_topic (now : Moment) : s.Does line (s.topic line now) := by
  unfold topic
  split
  · exact does_stay
  · exact does_changeTopic ..

theorem does_noTopic : s.Does line (s.noTopic line) := by
  unfold noTopic
  split
  · exact does_stay
  · exact does_changeTopic ..

theorem does_topicIs : s.Does line (s.topicIs line) := by
  unfold topicIs
  split
  · exact does_stay
  · exact does_changeTopic ..

theorem does_topicWhoTime : s.Does line (s.topicWhoTime line) := by
  unfold topicWhoTime
  split
  · exact does_stay
  · exact does_changeTopic ..

theorem does_creationTime : s.Does line (s.creationTime line) := by
  unfold creationTime
  split
  · exact does_learned (s.network.sameStanding_modifyChannel _ fun _ =>
      Channel.keeps_of_members rfl rfl) rfl
  · exact does_stay

/-- Events about modes tell of the line. -/
theorem isOfLine_modeEvents (channel setter : String) (changes : List ModeChange) :
    (modeEvents channel setter changes).all Event.isOfLine = true := by
  refine List.all_eq_true.mpr fun event hIn => ?_
  rcases List.mem_append.mp hIn with hMember | hAll
  · obtain ⟨c, _, hEvent⟩ := List.mem_filterMap.mp hMember
    split at hEvent
    · cases hEvent
      rfl
    · cases hEvent
  · rw [List.mem_singleton.mp hAll]
    rfl

/-- Mode changes touch flags, values, lists and statuses, but nobody's membership. -/
theorem does_changeChannelModes (channel : String) (pieces : List String) (setter : String)
    (time : Int) (snapshot : Bool) :
    s.Does line (s.changeChannelModes channel pieces setter time snapshot) := by
  unfold changeChannelModes
  cases hc : s.network.channel? channel with
  | none => exact does_stay
  | some c =>
      have hGet : s.network.channels.getOrNew channel = c := by
        rw [ChannelTable.getOrNew, show s.network.channels.get? channel = some c from hc]
        rfl
      let base :=
        if snapshot then { c with flags := ModeMask.none, params := SortedMap.empty } else c
      have hBase : c.Keeps base := by
        cases snapshot with
        | true => exact Channel.keeps_of_members rfl rfl
        | false => exact Channel.Keeps.refl c
      have hAll := hBase.trans (Channel.keeps_applyChanges s.network.findId? setter time base
        (ModeChange.read s.network.modes pieces))
      rw [← hGet] at hAll
      exact does_learned (s.network.sameStanding_put channel hAll) (isOfLine_modeEvents ..)

theorem does_changeUserModes (nick modes : String) (snapshot : Bool) :
    s.Does line (s.changeUserModes nick modes snapshot) := by
  unfold changeUserModes
  split
  · exact does_learned (s.network.sameStanding_modifyClient _ (fun _ => rfl) (fun _ => rfl)
      (fun _ => rfl) fun _ => rfl) rfl
  · exact does_stay

theorem does_mode (now : Moment) : s.Does line (s.mode line now) := by
  unfold mode
  split
  · exact does_stay
  · split
    · exact does_changeChannelModes ..
    · exact does_changeUserModes ..

theorem does_channelModeIs (now : Moment) : s.Does line (s.channelModeIs line now) := by
  unfold channelModeIs
  split
  · exact does_changeChannelModes ..
  · exact does_stay

theorem does_userModeIs : s.Does line (s.userModeIs line) := by
  unfold userModeIs
  split
  · exact does_changeUserModes ..
  · exact does_stay

/-- A list reply may make a record for its channel, but one without members. -/
theorem does_listReply (numeric : ListNumeric) : s.Does line (s.listReply line numeric) := by
  unfold listReply
  cases line.param? 1 with
  | none => exact does_stay
  | some channel =>
      have hKeeps : (s.network.channels.getOrNew channel).Keeps
          ((((s.network.channels.getOrNew channel).listLine? s.dialect numeric line.params).map
            Prod.snd).getD (s.network.channels.getOrNew channel)) := by
        cases hOutcome : (s.network.channels.getOrNew channel).listLine? s.dialect numeric
            line.params with
        | none => exact Channel.Keeps.refl _
        | some after => exact Channel.keeps_listLine? hOutcome
      have hSame := s.network.sameStanding_put channel hKeeps
      simp only
      split
      · exact does_learned hSame (by simp [Event.isOfLine])
      · exact does_learned hSame rfl

/-- Whatever is learned of a user leaves standing, identity and nickname as they are. -/
theorem learn_sameStanding (n : Network) (nick : String) {f : Client → Client}
    (hId : ∀ c, (f c).id = c.id) (hNick : ∀ c, (f c).nick = c.nick)
    (hChannels : ∀ c, (f c).channels = c.channels) (hKept : ∀ c, (f c).keptAlive = c.keptAlive) :
    n.SameStanding (learn n nick f) := by
  unfold learn
  split
  · exact n.sameStanding_modifyClient _ hId hNick hChannels hKept
  · exact .refl n

theorem learnOwn_sameStanding (n : Network) {f : Client → Client}
    (hId : ∀ c, (f c).id = c.id) (hNick : ∀ c, (f c).nick = c.nick)
    (hChannels : ∀ c, (f c).channels = c.channels) (hKept : ∀ c, (f c).keptAlive = c.keptAlive) :
    n.SameStanding (learnOwn n f) := by
  unfold learnOwn
  split
  · exact n.sameStanding_modifyClient _ hId hNick hChannels hKept
  · exact .refl n

theorem learnSender_sameStanding (n : Network) (sender : Hostmask) :
    n.SameStanding (learnSender n sender) :=
  learn_sameStanding n _ (fun _ => rfl) (fun _ => rfl) (fun _ => rfl) fun _ => rfl

/-- A WHO reply adds notes about a user that is known. -/
theorem does_whoReply : s.Does line (s.whoReply line) := by
  unfold whoReply
  split
  next channel ident host _ nick flags _ _ =>
    split
    · exact does_stay
    next id _ =>
      have hLearned : s.network.SameStanding (s.network.modifyClient id fun c =>
          { presence flags.toList (c.learn ident host) with
            realname := (whoRealname line).or
              (presence flags.toList (c.learn ident host)).realname }) := by
        refine s.network.sameStanding_modifyClient id ?_ ?_ ?_ ?_
        · exact fun c => (Follows.presence_frame flags.toList (c.learn ident host)).1
        · exact fun c => (Follows.presence_frame flags.toList (c.learn ident host)).2.1
        · exact fun c => (Follows.presence_frame flags.toList (c.learn ident host)).2.2.1
        · exact fun c => (Follows.presence_frame flags.toList (c.learn ident host)).2.2.2
      exact does_learned (hLearned.trans (Network.sameStanding_modifyChannel _ channel fun c =>
        Channel.keeps_modify c id fun _ => rfl)) rfl
  · exact does_stay

theorem does_whoisUser : s.Does line (s.whoisUser line) := by
  unfold whoisUser
  split
  · exact does_learned (learn_sameStanding _ _ (fun _ => rfl) (fun _ => rfl) (fun _ => rfl)
      fun _ => rfl) rfl
  · exact does_stay

theorem does_awayReply : s.Does line (s.awayReply line) := by
  unfold awayReply
  split
  · exact does_stay
  · exact does_learned (learn_sameStanding _ _ (fun _ => rfl) (fun _ => rfl) (fun _ => rfl)
      fun _ => rfl) rfl

theorem does_awayNotify : s.Does line (s.awayNotify line) := by
  have hLearned := learn_sameStanding s.network line.source.nick
    (f := fun c => { c with away := (line.param? 0).isSome, awayReason := line.param? 0 })
    (fun _ => rfl) (fun _ => rfl) (fun _ => rfl) fun _ => rfl
  unfold awayNotify
  simp only
  split <;> exact does_learned hLearned rfl

theorem does_ownAway (away : Bool) : s.Does line (s.ownAway away) :=
  does_learned (learnOwn_sameStanding _ (fun _ => rfl) (fun _ => rfl) (fun _ => rfl)
    fun _ => rfl) rfl

theorem does_ownAccount (account : Option String) : s.Does line (s.ownAccount account) :=
  does_learned (learnOwn_sameStanding _ (fun _ => rfl) (fun _ => rfl) (fun _ => rfl)
    fun _ => rfl) rfl

theorem isOfLine_delivered (n : Network) (target : String) (sender : Hostmask)
    (utterance : Utterance) : [delivered n target sender utterance].all Event.isOfLine = true := by
  unfold delivered
  simp only
  split <;> rfl

theorem does_privmsg : s.Does line (s.privmsg line) := by
  unfold privmsg
  split
  · exact does_learned (learnSender_sameStanding ..) (isOfLine_delivered ..)
  · exact does_stay

theorem does_notice : s.Does line (s.notice line) := by
  unfold notice
  split
  · simp only
    split
    · exact does_tells rfl
    · exact does_learned (learnSender_sameStanding ..) (isOfLine_delivered ..)
  · exact does_stay

/-- Each numeric by its name, if the server does not use its code for lists. -/
theorem does_namedNumeric (now : Moment) {n : Numeric} (hCode : line.numeric? = some n.code)
    (hFree : ListNumeric.ofCode? s.network.support n.code = none) :
    s.Does line (s.namedNumeric line now n) := by
  unfold namedNumeric
  by_cases hRefused : n.isJoinFailure = true
  · rw [if_pos hRefused]
    exact does_joinRefused n.code
  · rw [if_neg hRefused]
    cases n
    case welcome => exact does_welcome hCode
    case myInfo => exact does_serverInfo ⟨hCode, hFree⟩
    case isupport => exact does_supportLine ⟨hCode, hFree⟩
    case motdStart => exact does_tells rfl
    case motd => exact does_tells rfl
    case endOfMotd => exact does_motdEnd false
    case noMotd => exact does_motdEnd true
    case nicknameInUse => exact does_nickInUse
    case unavailResource => exact does_nickInUse
    case noTopic => exact does_noTopic
    case topic => exact does_topicIs
    case topicWhoTime => exact does_topicWhoTime
    case namReply => exact does_names
    case endOfNames => exact does_endOfNames
    case creationTime => exact does_creationTime
    case whoReply => exact does_whoReply
    case whoisUser => exact does_whoisUser
    case away => exact does_awayReply
    case unaway => exact does_ownAway false
    case nowAway => exact does_ownAway true
    case loggedIn => exact does_ownAccount _
    case loggedOut => exact does_ownAccount none
    case channelModeIs => exact does_channelModeIs now
    case umodeIs => exact does_userModeIs
    all_goals exact does_stay

/-- Every numeric, whether it is for a list, has a name or is told of only. -/
theorem does_numericReply (now : Moment) {code : Nat} (hCode : line.numeric? = some code) :
    s.Does line (s.numericReply line now code) := by
  unfold numericReply
  refine does_told rfl ?_
  cases hList : ListNumeric.ofCode? s.network.support code with
  | some list => exact does_listReply list
  | none =>
      cases hNumeric : Numeric.ofCode? code with
      | none => exact does_stay
      | some n =>
          rw [← Numeric.code_of_ofCode? hNumeric] at hCode hList
          exact does_namedNumeric now hCode hList

/-- Every word; those that nobody knows are not dealt with. -/
theorem does_command (now : Moment) : s.Does line (s.command line now) := by
  unfold command
  split
  case h_1 => exact ⟨.standing (.refl _), fun _ => rfl, rfl⟩
  case h_2 => exact does_serverPong now
  case h_3 => exact does_tells rfl
  case h_4 hCommand => exact does_join hCommand
  case h_5 hCommand => exact does_part hCommand
  case h_6 hCommand => exact does_kick hCommand
  case h_7 => exact does_topic now
  case h_8 => exact does_invite
  case h_9 hCommand => exact does_nick hCommand
  case h_10 hCommand => exact does_quit hCommand
  case h_11 => exact does_awayNotify
  case h_12 => exact does_mode now
  case h_13 => exact does_privmsg
  case h_14 => exact does_notice
  case h_15 => exact does_tells rfl
  case h_16 => exact does_stay

end Does

/-- What a session does with a line once earlier announcements are settled. -/
def handled (s : Session) (line : Line) (now : Moment) : Step :=
  match line.numeric? with
  | some code => s.numericReply line now code
  | none => s.command line now

/-- What is told of announcements that a line settles. -/
def settlement (s : Session) (line : Line) : List Event :=
  if s.supportPending && line.numeric? != some Numeric.isupport.code then [.tableRebuilt] else []

/-- Whatever a line is, it is one of the dealings, and its events are those of a line. -/
theorem does_handled (s : Session) (line : Line) (now : Moment) :
    s.Does line (s.handled line now) := by
  unfold handled
  split
  next code hCode => exact does_numericReply now hCode
  · exact does_command now

/-- A numeric that is known by name and not claimed for lists is taken by its name. -/
theorem handled_of_announces {s : Session} {line : Line} {n : Numeric} (now : Moment)
    (h : line.Announces s.network.support n.code) :
    s.handled line now =
      (s.tells [.numeric n.code line.params]).andThen fun s => s.namedNumeric line now n := by
  unfold handled numericReply
  rw [h.1]
  simp only [tells, Step.andThen, h.2, Numeric.ofCode?_code]

/-- A text is read as the line that it is. -/
theorem read_of_lineOf? {raw : String} {line : Line} (h : Picture.lineOf? raw = some line) :
    Line.read (bare raw) = .ok line := by
  cases hRead : Line.read (bare raw) with
  | error e =>
      rw [show Picture.lineOf? raw = none from congrArg Except.toOption hRead] at h
      cases h
  | ok found =>
      rw [show Picture.lineOf? raw = some found from congrArg Except.toOption hRead] at h
      rw [Option.some.inj h]

/-- A line settles what was announced before it, unless it announces more, and is then dealt
with. -/
theorem dispatch_eq_handled {raw : String} {line : Line} (s : Session) (now : Moment)
    (h : Picture.lineOf? raw = some line) :
    s.dispatch raw now =
      (((s.noticing now).settledFor line).tells (.dataIn (bare raw) :: s.settlement line)).andThen
        fun settled => settled.handled line now := by
  rw [dispatch_of_line now (read_of_lineOf? h)]
  unfold handle settledFor settlement
  by_cases hPending : (s.supportPending && line.numeric? != some Numeric.isupport.code) = true
  · have hNoticed : ((s.noticing now).supportPending &&
        line.numeric? != some Numeric.isupport.code) = true := hPending
    simp only [tells, Step.andThen, hPending, hNoticed, if_true]
    rfl
  · have hNoticed : ¬((s.noticing now).supportPending &&
        line.numeric? != some Numeric.isupport.code) = true := hPending
    simp only [tells, Step.andThen, hPending, hNoticed]
    rfl

/-- Where no announcement is unsettled, a line is dealt with at once. -/
theorem dispatch_of_settled {s : Session} {raw : String} {line : Line}
    (hSettled : s.supportPending = false) (h : Picture.lineOf? raw = some line) (now : Moment) :
    s.dispatch raw now =
      ((s.noticing now).tells [.dataIn (bare raw)]).andThen fun s => s.handled line now := by
  have hNoticed : (s.noticing now).supportPending = false := hSettled
  have hSame : (s.noticing now).settledFor line = s.noticing now := by
    simp [settledFor, hNoticed]
  have hNothing : s.settlement line = [] := by simp [settlement, hSettled]
  rw [s.dispatch_eq_handled now h, hSame, hNothing]

/-- A command that is a word is taken by its name. -/
theorem dispatch_of_word {s : Session} {raw : String} {line : Line}
    (hSettled : s.supportPending = false) (h : Picture.lineOf? raw = some line)
    (hWord : line.numeric? = none) (now : Moment) :
    s.dispatch raw now =
      ((s.noticing now).tells [.dataIn (bare raw)]).andThen fun s => s.command line now := by
  rw [dispatch_of_settled hSettled h]
  unfold handled
  rw [hWord]

/-- A text that is no line changes nothing but the keepalive. -/
theorem dispatch_of_lineOf?_eq_none {raw : String} (s : Session) (now : Moment)
    (h : Picture.lineOf? raw = none) :
    ∃ error, s.dispatch raw now =
      (s.noticing now).tells [.dataIn (bare raw), .malformed (bare raw) error] := by
  cases hRead : Line.read (bare raw) with
  | error e => exact ⟨e, dispatch_of_unreadable now hRead⟩
  | ok found =>
      rw [show Picture.lineOf? raw = some found from congrArg Except.toOption hRead] at h
      cases h

/-- What is done with a session: a text comes from the server, or someone else who has a hold of
the network does something to it. -/
inductive Deed
  | text (raw : String) (now : Moment)
  | operation (op : Network.Op)
deriving DecidableEq

namespace Deed

def take (s : Session) : Deed → Session
  | text raw now => (s.dispatch raw now).session
  | operation op => s.withNetwork (s.network.apply op)

def line? : Deed → Option Line
  | text raw _ => Picture.lineOf? raw
  | operation _ => none

end Deed

def through (s : Session) (deeds : List Deed) : Session := deeds.foldl Deed.take s

/-- Deeds may be done in two goes. -/
theorem through_append (s : Session) (deeds later : List Deed) :
    s.through (deeds ++ later) = (s.through deeds).through later := List.foldl_append

/-- What holds at the start and is kept by every deed that may be done holds after any number of
them. -/
theorem through_induction {P : Session → Prop} {allowed : Deed → Prop} {s : Session} (start : P s)
    (step : ∀ s deed, P s → allowed deed → P (deed.take s)) :
    ∀ deeds : List Deed, (∀ deed ∈ deeds, allowed deed) → P (s.through deeds) := by
  intro deeds
  induction deeds generalizing s with
  | nil => exact fun _ => start
  | cons deed rest ih =>
      intro hAll
      have hFirst := step s deed start (hAll deed List.mem_cons_self)
      exact ih hFirst fun later hIn => hAll later (List.mem_cons_of_mem _ hIn)

end Session

end Irc
