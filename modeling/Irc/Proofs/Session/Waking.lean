import Irc.Proofs.Network.Blank
import Irc.Proofs.Session.Identity
/-! What lines do to a session that knows of nothing. Most of them pass: they are about users and
channels that are not there. A few make a beginning: they name us, bring someone into a channel,
tell of the lists of a channel, or want an answer. -/
namespace Irc

/-- The line makes a beginning where nothing is known: it wants an answer, names us, brings someone
into a channel, or tells of the lists of a channel. -/
inductive Line.Wakes (support : Support) (line : Line) : Prop
  | ping (command : line.command = "PING")
  | joining {channel mask : String} (command : line.command = "JOIN")
      (where_ : line.param? 0 = some channel) (who : line.source? = some mask)
  | greeting (code : line.Announces support 1)
  | nickTaken (code : line.Announces support 433 ∨ line.Announces support 437)
  | listing {code : Nat} {list : ListNumeric} {channel : String}
      (isNumeric : line.numeric? = some code)
      (claimed : ListNumeric.ofCode? support code = some list)
      (where_ : line.param? 1 = some channel)

namespace Line

variable {support : Support} {line : Line}

/-- Of numerics, a greeting, a refusal and a list reply with a channel wake a session. -/
theorem wakes_iff_of_numeric {code : Nat} (h : line.numeric? = some code) :
    line.Wakes support ↔
      (ListNumeric.ofCode? support code).elim (code = 1 ∨ code = 433 ∨ code = 437) fun _ =>
        line.param? 1 ≠ none := by
  have hNoWord : ∀ word : String, numeric? ⟨[], none, word, []⟩ = none → line.command ≠ word := by
    rintro word hWord rfl
    rw [show line.numeric? = none from hWord] at h
    cases h
  constructor
  · intro hWakes
    cases hWakes with
    | ping command => exact absurd command (hNoWord _ (by decide))
    | joining command => exact absurd command (hNoWord _ (by decide))
    | greeting code =>
        cases h.symm.trans code.1
        rw [code.2]
        exact .inl rfl
    | nickTaken code =>
        rcases code with code | code <;> cases h.symm.trans code.1 <;> rw [code.2]
        · exact .inr (.inl rfl)
        · exact .inr (.inr rfl)
    | listing isNumeric claimed where_ =>
        cases h.symm.trans isNumeric
        rw [claimed]
        exact fun hMissing => by cases where_.symm.trans hMissing
  · cases hClaimed : ListNumeric.ofCode? support code with
    | none =>
        rintro (rfl | rfl | rfl)
        · exact .greeting ⟨h, hClaimed⟩
        · exact .nickTaken (.inl ⟨h, hClaimed⟩)
        · exact .nickTaken (.inr ⟨h, hClaimed⟩)
    | some list =>
        intro hParam
        obtain ⟨channel, hChannel⟩ := Option.ne_none_iff_exists'.mp hParam
        exact .listing h hClaimed hChannel

/-- Of words, a PING and a JOIN with a channel and a source do. -/
theorem wakes_iff_of_word (h : line.numeric? = none) :
    line.Wakes support ↔
      line.command = "PING" ∨
        line.command = "JOIN" ∧ line.param? 0 ≠ none ∧ line.source? ≠ none := by
  constructor
  · intro hWakes
    cases hWakes with
    | ping command => exact .inl command
    | joining command where_ who => exact .inr ⟨command, by simp [where_], by simp [who]⟩
    | greeting code => cases h.symm.trans code.1
    | nickTaken code => rcases code with code | code <;> cases h.symm.trans code.1
    | listing isNumeric => cases h.symm.trans isNumeric
  · rintro (hPing | ⟨hJoin, hWhere, hWho⟩)
    · exact .ping hPing
    · obtain ⟨channel, hChannel⟩ := Option.ne_none_iff_exists'.mp hWhere
      obtain ⟨mask, hMask⟩ := Option.ne_none_iff_exists'.mp hWho
      exact .joining hJoin hChannel hMask

end Line

def Support.hear (support : Support) (line : Line) : Support :=
  if line.Announces support 5 then support.absorb line.params else support

/-- None of some texts is a line that wakes, by what the server has announced before it. -/
def Support.AllPass (support : Support) : List (String × Moment) → Prop
  | [] => True
  | (raw, _) :: rest =>
    (∀ line ∈ Picture.lineOf? raw, ¬line.Wakes support) ∧
      ((Picture.lineOf? raw).elim support support.hear).AllPass rest

namespace Session

variable {s : Session} {line : Line} {now : Moment}

theorem network_joinRefused (line : Line) (code : Nat) :
    (s.joinRefused line code).session.network = s.network := by
  rw [joinRefused]
  split <;> rfl

theorem network_motdEnd (missing : Bool) : (s.motdEnd missing).session.network = s.network := by
  rw [motdEnd]
  split <;> rfl

theorem network_nickInUse (line : Line) : (s.nickInUse line).session.network = s.network := by
  rw [nickInUse]
  split <;> rfl

theorem network_serverPong (line : Line) (now : Moment) :
    (s.serverPong line now).session.network = s.network := by
  simp only [serverPong]
  split <;> rfl

theorem network_invite (line : Line) : (s.invite line).session.network = s.network := by
  rw [invite]
  split <;> rfl

section Passing

variable (h : s.network.Blank)

include h

/-- There is nobody to leave. -/
theorem leave_of_blank (channel nick : String) : leave s.network channel nick = s.network := by
  simp only [leave, h.isOwn, h.findId?, Bool.false_eq_true, if_false]

theorem learn_of_blank (nick : String) (f : Client → Client) :
    learn s.network nick f = s.network := by
  simp only [learn, h.findId?]

theorem learnOwn_of_blank (f : Client → Client) : learnOwn s.network f = s.network := by
  simp only [learnOwn, h.own]

theorem part_of_blank (line : Line) : (s.part line).session.network = s.network := by
  rw [part]
  split
  · rfl
  · exact leave_of_blank h ..

theorem kick_of_blank (line : Line) : (s.kick line).session.network = s.network := by
  rw [kick]
  split
  · exact leave_of_blank h ..
  · rfl

/-- A list of names is for channels that are there. -/
theorem names_of_blank (line : Line) : (s.names line).session.network = s.network := by
  simp only [names, h.contains, Bool.false_eq_true, if_false]
  split <;> rfl

theorem endOfNames_of_blank (line : Line) : (s.endOfNames line).session.network = s.network := by
  simp only [endOfNames, h.contains, Bool.false_eq_true, if_false]
  split <;> rfl

theorem changeTopic_of_blank (channel : String) (live : Bool) (f : Topic → Topic) :
    (s.changeTopic channel live f).session.network = s.network := by
  rw [changeTopic, h.channel?]
  rfl

theorem topic_of_blank (line : Line) (now : Moment) :
    (s.topic line now).session.network = s.network := by
  rw [topic]
  split
  · rfl
  · exact changeTopic_of_blank h ..

theorem noTopic_of_blank (line : Line) : (s.noTopic line).session.network = s.network := by
  rw [noTopic]
  split
  · rfl
  · exact changeTopic_of_blank h ..

theorem topicIs_of_blank (line : Line) : (s.topicIs line).session.network = s.network := by
  rw [topicIs]
  split
  · rfl
  · exact changeTopic_of_blank h ..

theorem topicWhoTime_of_blank (line : Line) :
    (s.topicWhoTime line).session.network = s.network := by
  rw [topicWhoTime]
  split
  · rfl
  · exact changeTopic_of_blank h ..

theorem creationTime_of_blank (line : Line) :
    (s.creationTime line).session.network = s.network := by
  rw [creationTime]
  split
  · exact h.modifyChannel ..
  · rfl

theorem changeChannelModes_of_blank (channel : String) (pieces : List String) (setter : String)
    (time : Int) (snapshot : Bool) :
    (s.changeChannelModes channel pieces setter time snapshot).session.network = s.network := by
  rw [changeChannelModes, h.channel?]
  rfl

theorem changeUserModes_of_blank (nick modes : String) (snapshot : Bool) :
    (s.changeUserModes nick modes snapshot).session.network = s.network := by
  rw [changeUserModes, h.findId?]
  rfl

theorem mode_of_blank (line : Line) (now : Moment) :
    (s.mode line now).session.network = s.network := by
  rw [mode]
  split
  · rfl
  · split
    · exact changeChannelModes_of_blank h ..
    · exact changeUserModes_of_blank h ..

theorem channelModeIs_of_blank (line : Line) (now : Moment) :
    (s.channelModeIs line now).session.network = s.network := by
  rw [channelModeIs]
  split
  · exact changeChannelModes_of_blank h ..
  · rfl

theorem userModeIs_of_blank (line : Line) : (s.userModeIs line).session.network = s.network := by
  rw [userModeIs]
  split
  · exact changeUserModes_of_blank h ..
  · rfl

theorem nick_of_blank (line : Line) : (s.nick line).session.network = s.network := by
  rw [nick]
  split
  · rfl
  · simp only [tells, Network.rename, h.findId?]

theorem quit_of_blank (line : Line) : (s.quit line).session.network = s.network := by
  simp only [quit, tells, withNetwork, h.findId?]

theorem whoReply_of_blank (line : Line) : (s.whoReply line).session.network = s.network := by
  rw [whoReply]
  split
  · rw [h.client?]
    rfl
  · rfl

theorem whoisUser_of_blank (line : Line) : (s.whoisUser line).session.network = s.network := by
  rw [whoisUser]
  split
  · exact learn_of_blank h ..
  · rfl

theorem awayReply_of_blank (line : Line) : (s.awayReply line).session.network = s.network := by
  rw [awayReply]
  split
  · rfl
  · exact learn_of_blank h ..

theorem awayNotify_of_blank (line : Line) : (s.awayNotify line).session.network = s.network := by
  simp only [awayNotify]
  split <;> exact learn_of_blank h ..

theorem privmsg_of_blank (line : Line) : (s.privmsg line).session.network = s.network := by
  rw [privmsg]
  split
  · exact learn_of_blank h ..
  · rfl

theorem notice_of_blank (line : Line) : (s.notice line).session.network = s.network := by
  rw [notice]
  split
  · simp only
    split
    · rfl
    · exact learn_of_blank h ..
  · rfl

/-- An announcement takes effect on nobody and nothing. -/
theorem blank_settleSupport : s.settleSupport.session.network.Blank := by
  have hUnder : s.network.underAnnounced.Blank := by
    rw [Network.underAnnounced]
    split
    · exact h.setMapping _
    · exact h
  exact ⟨hUnder.users, hUnder.channels, hUnder.own⟩

/-- Announcements that take effect bring in nobody. -/
theorem blank_settledFor (line : Line) : (s.settledFor line).network.Blank := by
  rw [settledFor]
  split
  · exact blank_settleSupport h
  · exact h

end Passing

/-- A JOIN makes a beginning if it names a channel and has a source. -/
theorem blank_join_iff (h : s.network.Blank) (line : Line) :
    (s.join line).session.network.Blank ↔ line.param? 0 = none ∨ line.source? = none := by
  unfold join
  cases line.param? 0 with
  | none => exact iff_of_true h (.inl rfl)
  | some channel =>
      cases line.source? with
      | none => exact iff_of_true h (.inr rfl)
      | some mask =>
          refine iff_of_false (fun hBlank => ?_) (by simp)
          have hChannels : ∀ (n : Network) (id : ClientId),
              (learnAccount n id line).channels = n.channels := by
            intro n id
            rw [learnAccount]
            split <;> rfl
          simp only [h.isOwn, Bool.false_eq_true, if_false] at hBlank
          have hNone := hBlank.channel? channel
          simp only [tells, withNetwork, Network.channel?, hChannels] at hNone
          exact s.network.channel?_join_ne_none channel mask hNone

/-- A list reply makes one if it names a channel. -/
theorem blank_listReply_iff (h : s.network.Blank) (line : Line) (list : ListNumeric) :
    (s.listReply line list).session.network.Blank ↔ line.param? 1 = none := by
  unfold listReply
  cases line.param? 1 with
  | none => exact iff_of_true h rfl
  | some channel =>
      refine iff_of_false (fun hBlank => ?_) (by simp)
      simp only at hBlank
      split at hBlank <;> exact s.network.not_blank_put _ _ hBlank

/-- A greeting always makes one. -/
theorem not_blank_welcome (h : s.network.Blank) (line : Line) :
    ¬(s.welcome line).session.network.Blank := by
  rw [(welcome_frame s line).1]
  exact Network.not_blank_setOwn h _

/-- No other numeric does, by its name. -/
theorem blank_namedNumeric_iff (h : s.network.Blank) (line : Line) (now : Moment) (n : Numeric) :
    (s.namedNumeric line now n).session.network.Blank ↔ n ≠ .welcome := by
  unfold namedNumeric
  by_cases hRefused : n.isJoinFailure = true
  · rw [if_pos hRefused, network_joinRefused]
    exact iff_of_true h (by rintro rfl; cases hRefused)
  · rw [if_neg hRefused]
    cases n
    case welcome => exact iff_of_false (not_blank_welcome h line) fun hOther => hOther rfl
    all_goals refine iff_of_true ?_ (by decide)
    case myInfo => exact ⟨h.users, h.channels, h.own⟩
    case isupport => exact ⟨h.users, h.channels, h.own⟩
    case endOfMotd => exact h.of_eq (network_motdEnd false)
    case noMotd => exact h.of_eq (network_motdEnd true)
    case nicknameInUse => exact h.of_eq (network_nickInUse line)
    case unavailResource => exact h.of_eq (network_nickInUse line)
    case noTopic => exact h.of_eq (noTopic_of_blank h line)
    case topic => exact h.of_eq (topicIs_of_blank h line)
    case topicWhoTime => exact h.of_eq (topicWhoTime_of_blank h line)
    case namReply => exact h.of_eq (names_of_blank h line)
    case endOfNames => exact h.of_eq (endOfNames_of_blank h line)
    case creationTime => exact h.of_eq (creationTime_of_blank h line)
    case whoReply => exact h.of_eq (whoReply_of_blank h line)
    case whoisUser => exact h.of_eq (whoisUser_of_blank h line)
    case away => exact h.of_eq (awayReply_of_blank h line)
    case unaway => exact h.of_eq (learnOwn_of_blank h _)
    case nowAway => exact h.of_eq (learnOwn_of_blank h _)
    case loggedIn => exact h.of_eq (learnOwn_of_blank h _)
    case loggedOut => exact h.of_eq (learnOwn_of_blank h _)
    case channelModeIs => exact h.of_eq (channelModeIs_of_blank h line now)
    case umodeIs => exact h.of_eq (userModeIs_of_blank h line)
    all_goals exact h

/-- By its code, a numeric does if it greets us or is for a list. -/
theorem blank_numericReply_iff (h : s.network.Blank) (line : Line) (now : Moment) (code : Nat) :
    (s.numericReply line now code).session.network.Blank ↔
      (ListNumeric.ofCode? s.network.support code).elim (code ≠ 1) fun _ =>
        line.param? 1 = none := by
  unfold numericReply
  rw [Step.session_andThen, session_tells]
  cases ListNumeric.ofCode? s.network.support code with
  | some list => exact blank_listReply_iff h line list
  | none =>
      cases hNumeric : Numeric.ofCode? code with
      | none =>
          refine iff_of_true h ?_
          rintro rfl
          cases hNumeric
      | some n =>
          have hWelcome : n = .welcome ↔ code = 1 := Numeric.eq_iff_of_ofCode? hNumeric
          exact (blank_namedNumeric_iff h line now n).trans (not_congr hWelcome)

/-- No word does but a JOIN. -/
theorem blank_command_iff (h : s.network.Blank) (line : Line) (now : Moment) :
    (s.command line now).session.network.Blank ↔
      (line.command = "JOIN" → line.param? 0 = none ∨ line.source? = none) := by
  by_cases hJoin : line.command = "JOIN"
  · have hStep : s.command line now = s.join line := by simp only [command, hJoin]
    rw [hStep, blank_join_iff h]
    exact ⟨fun hMissing _ => hMissing, fun hMissing => hMissing hJoin⟩
  · refine iff_of_true ?_ fun hIs => absurd hIs hJoin
    unfold command
    split
    case h_1 => exact h
    case h_2 => exact h.of_eq (network_serverPong line now)
    case h_3 => exact h
    case h_4 hCommand => exact absurd hCommand hJoin
    case h_5 => exact h.of_eq (part_of_blank h line)
    case h_6 => exact h.of_eq (kick_of_blank h line)
    case h_7 => exact h.of_eq (topic_of_blank h line now)
    case h_8 => exact h.of_eq (network_invite line)
    case h_9 => exact h.of_eq (nick_of_blank h line)
    case h_10 => exact h.of_eq (quit_of_blank h line)
    case h_11 => exact h.of_eq (awayNotify_of_blank h line)
    case h_12 => exact h.of_eq (mode_of_blank h line now)
    case h_13 => exact h.of_eq (privmsg_of_blank h line)
    case h_14 => exact h.of_eq (notice_of_blank h line)
    case h_15 => exact h
    case h_16 => exact h

/-- A numeric passes, without a beginning and without an answer, exactly if it is not one that
wakes. -/
theorem numericReply_passes_iff (h : s.network.Blank) (hPhase : s.phase = .disconnected)
    {code : Nat} (hCode : line.numeric? = some code) (now : Moment) :
    (s.numericReply line now code).session.network.Blank ∧ s.numericAnswer line code = [] ↔
      ¬line.Wakes s.network.support := by
  have hRenewal : s.renewal line ≠ [] := by
    rw [renewal, if_neg (by rw [hPhase]; decide)]
    exact List.cons_ne_nil _ _
  rw [blank_numericReply_iff h, Line.wakes_iff_of_numeric hCode, numericAnswer, ite_eq_right_iff]
  cases ListNumeric.ofCode? s.network.support code with
  | some list => simp
  | none => simp [hRenewal]

/-- A word passes, without a beginning and without an answer, exactly if it is not one that
wakes. -/
theorem command_passes_iff (h : s.network.Blank) (hWord : line.numeric? = none) (now : Moment)
    (after : Session) :
    (s.command line now).session.network.Blank ∧ s.commandAnswer line after = [] ↔
      ¬line.Wakes s.network.support := by
  have hNotOurs : s.ownJoin? line = none := by
    rw [ownJoin?]
    split
    · rw [h.isOwn]
      rfl
    · rfl
  rw [blank_command_iff h, Line.wakes_iff_of_word hWord, commandAnswer, hNotOurs]
  by_cases hPing : line.command = "PING"
  · simp [hPing]
  · simp [hPing, or_iff_not_imp_left]

/-- A line passes exactly if it does not wake. -/
theorem dispatch_passes_iff (h : s.network.Blank) (hPhase : s.phase = .disconnected) (raw : String)
    (now : Moment) :
    (s.dispatch raw now).session.network.Blank ∧ (s.dispatch raw now).lines = [] ↔
      ∀ line ∈ Picture.lineOf? raw, ¬line.Wakes s.network.support := by
  cases hLine : Picture.lineOf? raw with
  | none =>
      obtain ⟨error, hStep⟩ := s.dispatch_of_lineOf?_eq_none now hLine
      rw [hStep]
      exact iff_of_true ⟨h, rfl⟩ fun line hNone => by cases hNone
  | some line =>
      let settled := (s.noticing now).settledFor line
      have hBlank : settled.network.Blank := blank_settledFor (s := s.noticing now) h line
      have hSupport : settled.network.support = s.network.support :=
        (s.noticing now).support_settledFor line
      have hOver : settled.phase = .disconnected :=
        (congrArg Lifecycle.phase ((s.noticing now).lifecycle_settledFor line)).trans hPhase
      have hLines := (answers_dispatch (s := s) now (read_of_lineOf? hLine)).lines_eq
      have hSession : (s.dispatch raw now).session = (settled.handled line now).session := by
        rw [s.dispatch_eq_handled now hLine]
        rfl
      rw [hLines, hSession, ← hSupport]
      simp only [Option.mem_some_iff, forall_eq']
      show (settled.handled line now).session.network.Blank ∧ settled.answer line _ = [] ↔ _
      unfold handled answer
      cases hNumeric : line.numeric? with
      | some code => exact numericReply_passes_iff hBlank hOver hNumeric now
      | none => exact command_passes_iff hBlank hNumeric now _

/-- A line that is a 005 line adds to what is announced, and no other does. -/
theorem support_handled (s : Session) (line : Line) (now : Moment) :
    (s.handled line now).session.network.support = s.network.support.hear line := by
  unfold Support.hear
  by_cases hSupport : line.Announces s.network.support 5
  · rw [if_pos hSupport, handled_of_announces (n := .isupport) now hSupport]
    rfl
  rw [if_neg hSupport]
  by_cases hInfo : line.Announces s.network.support 4
  · rw [handled_of_announces (n := .myInfo) now hInfo]
    rfl
  · have hTerms := (s.does_handled line now).deals.terms_eq hInfo hSupport
    exact congrArg (fun t => t.2.1) hTerms

/-- A text adds to what is announced exactly if its line is a 005 line. -/
theorem support_dispatch (s : Session) (raw : String) (now : Moment) :
    (s.dispatch raw now).session.network.support =
      (Picture.lineOf? raw).elim s.network.support s.network.support.hear := by
  cases hLine : Picture.lineOf? raw with
  | none =>
      obtain ⟨error, hStep⟩ := s.dispatch_of_lineOf?_eq_none now hLine
      rw [hStep]
      rfl
  | some line =>
      have hSettled := (s.noticing now).support_settledFor line
      rw [s.dispatch_eq_handled now hLine, Option.elim_some]
      exact (support_handled _ line now).trans (congrArg (Support.hear · line) hSettled)

def reading (s : Session) : List (String × Moment) → List Step
  | [] => []
  | (raw, now) :: rest => s.dispatch raw now :: (s.dispatch raw now).session.reading rest

/-- A connection that is over does not begin again. -/
theorem lifecycle_reading (hPhase : s.phase = .disconnected) (texts : List (String × Moment)) :
    ∀ step ∈ s.reading texts, step.session.lifecycle = s.lifecycle := by
  induction texts generalizing s with
  | nil => exact fun _ hIn => by cases hIn
  | cons text rest ih =>
      obtain ⟨raw, now⟩ := text
      have hSame : (s.dispatch raw now).session.lifecycle = s.lifecycle := by
        rcases s.lifecycle_dispatch raw now with hSame | ⟨_, _, _, hRegistering, _⟩
        · exact hSame
        · cases hPhase.symm.trans hRegistering
      have hStill : (s.dispatch raw now).session.phase = .disconnected :=
        (congrArg Lifecycle.phase hSame).trans hPhase
      refine List.forall_mem_cons.mpr ⟨hSame, fun step hIn => ?_⟩
      exact (ih hStill step hIn).trans hSame

/-- Texts leave a session that knows of nothing as it is exactly if none of them wakes it. -/
theorem reading_passes_iff (h : s.network.Blank) (hPhase : s.phase = .disconnected)
    (texts : List (String × Moment)) :
    (∀ step ∈ s.reading texts, step.session.network.Blank ∧ step.lines = []) ↔
      s.network.support.AllPass texts := by
  induction texts generalizing s with
  | nil => exact iff_of_true (fun _ hIn => by cases hIn) trivial
  | cons text rest ih =>
      obtain ⟨raw, now⟩ := text
      have hFirst := dispatch_passes_iff h hPhase raw now
      have hStill : (s.dispatch raw now).session.phase = .disconnected :=
        (congrArg Lifecycle.phase
          (lifecycle_reading hPhase [(raw, now)] _ List.mem_cons_self)).trans hPhase
      rw [reading, List.forall_mem_cons, Support.AllPass, ← hFirst, ← support_dispatch s raw now]
      exact and_congr_right fun hPasses => ih hPasses.1 hStill

end Session

end Irc
