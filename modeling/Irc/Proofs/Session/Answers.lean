import Irc.Proofs.Ping
import Irc.Proofs.Session.Refinement
/-! What a line from the server makes a session send, and what it leaves alone. A few lines are
answered; every other one is heard and no more. -/
namespace Irc

/-- The line that an event announces as sent. -/
def Event.sent? : Event → Option String
  | .dataOut line => some line
  | _ => none

/-- A code has one name. -/
theorem Numeric.eq_iff_of_ofCode? {code : Nat} {n m : Numeric} (h : ofCode? code = some n) :
    n = m ↔ code = m.code := by
  constructor
  · rintro rfl
    exact (code_of_ofCode? h).symm
  · intro hCode
    rw [hCode, ofCode?_code] at h
    exact (Option.some.inj h).symm

def Line.pong? (line : Line) : Option String :=
  if line.command = "PONG" then some line.trailing else none

/-- A command of three digits is no PONG. -/
theorem Line.pong?_of_numeric {line : Line} {code : Nat} (h : line.numeric? = some code) :
    line.pong? = none := by
  refine if_neg fun hCommand => ?_
  rw [numeric?, hCommand] at h
  cases h

namespace Session

/-- A step that sends these lines, announces none by itself, keeps the settings, and leads to this
point in the life of the connection and to this state of the keepalive. -/
structure Answers (s : Session) (lines : List String) (lifecycle : Lifecycle) (ping : PingTracker)
    (step : Step) : Prop where
  config : step.session.config = s.config
  lifecycle_eq : step.session.lifecycle = lifecycle
  ping_eq : step.session.ping = ping
  lines_eq : step.lines = lines
  silent : step.events.filterMap Event.sent? = []

/-- A step that sends these lines and is of no importance to the life of the connection. -/
abbrev Sends (s : Session) (lines : List String) (step : Step) : Prop :=
  s.Answers lines s.lifecycle s.ping step

/-- A step that is of no importance but to the picture of the network. -/
abbrev Hears (s : Session) (step : Step) : Prop := s.Sends [] step

/-- A step that is only heard adds nothing to what the next one sends. -/
theorem Hears.andThen {s : Session} {a : Step} {f : Session → Step} {lines : List String}
    {lifecycle : Lifecycle} {ping : PingTracker} (h : s.Hears a)
    (h' : a.session.Answers lines lifecycle ping (f a.session)) :
    s.Answers lines lifecycle ping (a.andThen f) where
  config := h'.config.trans h.config
  lifecycle_eq := h'.lifecycle_eq
  ping_eq := h'.ping_eq
  lines_eq := by rw [Step.andThen, h.lines_eq, h'.lines_eq, List.nil_append]
  silent := by rw [Step.andThen, List.filterMap_append, h.silent, h'.silent, List.nil_append]

section Hears

variable {s : Session}

theorem hears_stay (s : Session) : s.Hears s.stay := ⟨rfl, rfl, rfl, rfl, rfl⟩

/-- Events other than announcements are only told. -/
theorem hears_tells {events : List Event} (h : events.filterMap Event.sent? = []) :
    s.Hears (s.tells events) := ⟨rfl, rfl, rfl, rfl, h⟩

theorem hears_learned {n : Network} {events : List Event}
    (h : events.filterMap Event.sent? = []) : s.Hears ((s.withNetwork n).tells events) :=
  ⟨rfl, rfl, rfl, rfl, h⟩

theorem hears_serverInfo (line : Line) : s.Hears (s.serverInfo line) := ⟨rfl, rfl, rfl, rfl, rfl⟩

/-- Announcements that take effect are not answered either. -/
theorem hears_settleSupport (s : Session) : s.Hears s.settleSupport := ⟨rfl, rfl, rfl, rfl, rfl⟩

theorem hears_motdEnd (missing : Bool) : s.Hears (s.motdEnd missing) := by
  unfold motdEnd
  split <;> exact ⟨rfl, rfl, rfl, rfl, rfl⟩

theorem hears_part (line : Line) : s.Hears (s.part line) := by
  unfold part
  split
  · exact hears_stay s
  · exact hears_learned rfl

theorem hears_kick (line : Line) : s.Hears (s.kick line) := by
  unfold kick
  split
  · exact hears_learned rfl
  · exact hears_stay s

theorem hears_joinRefused (line : Line) (code : Nat) : s.Hears (s.joinRefused line code) := by
  unfold joinRefused
  split
  · exact hears_stay s
  · exact hears_tells rfl

/-- A NAMES reply fills in the channel, and nothing is sent for it. -/
theorem hears_names (line : Line) : s.Hears (s.names line) := by
  unfold names
  simp only
  split
  · exact hears_stay s
  · split
    · exact hears_learned rfl
    · exact hears_stay s

theorem hears_endOfNames (line : Line) : s.Hears (s.endOfNames line) := by
  unfold endOfNames
  split
  · exact hears_stay s
  · split
    · exact hears_learned rfl
    · exact hears_stay s

theorem hears_invite (line : Line) : s.Hears (s.invite line) := by
  unfold invite
  split
  · exact hears_stay s
  · exact hears_tells rfl

theorem hears_changeTopic (channel : String) (live : Bool) (f : Topic → Topic) :
    s.Hears (s.changeTopic channel live f) := by
  unfold changeTopic
  split
  · exact hears_stay s
  · exact hears_learned rfl

theorem hears_topic (line : Line) (now : Moment) : s.Hears (s.topic line now) := by
  unfold topic
  split
  · exact hears_stay s
  · exact hears_changeTopic ..

theorem hears_noTopic (line : Line) : s.Hears (s.noTopic line) := by
  unfold noTopic
  split
  · exact hears_stay s
  · exact hears_changeTopic ..

theorem hears_topicIs (line : Line) : s.Hears (s.topicIs line) := by
  unfold topicIs
  split
  · exact hears_stay s
  · exact hears_changeTopic ..

theorem hears_topicWhoTime (line : Line) : s.Hears (s.topicWhoTime line) := by
  unfold topicWhoTime
  split
  · exact hears_stay s
  · exact hears_changeTopic ..

theorem hears_creationTime (line : Line) : s.Hears (s.creationTime line) := by
  unfold creationTime
  split
  · exact hears_learned rfl
  · exact hears_stay s

theorem sent_modeEvents (channel setter : String) (changes : List ModeChange) :
    (modeEvents channel setter changes).filterMap Event.sent? = [] := by
  refine List.filterMap_eq_nil_iff.mpr fun e hIn => ?_
  rcases List.mem_append.mp hIn with hMember | hAll
  · obtain ⟨c, _, hEvent⟩ := List.mem_filterMap.mp hMember
    split at hEvent
    · cases hEvent
      rfl
    · cases hEvent
  · rw [List.mem_singleton.mp hAll]
    rfl

/-- Mode changes are told of one by one, or as a snapshot, and never answered. -/
theorem hears_changeChannelModes (channel : String) (pieces : List String) (setter : String)
    (time : Int) (snapshot : Bool) :
    s.Hears (s.changeChannelModes channel pieces setter time snapshot) := by
  unfold changeChannelModes
  split
  · exact hears_stay s
  · exact hears_learned (sent_modeEvents ..)

theorem hears_changeUserModes (nick modes : String) (snapshot : Bool) :
    s.Hears (s.changeUserModes nick modes snapshot) := by
  unfold changeUserModes
  split
  · exact hears_learned rfl
  · exact hears_stay s

theorem hears_mode (line : Line) (now : Moment) : s.Hears (s.mode line now) := by
  unfold mode
  split
  · exact hears_stay s
  · split
    · exact hears_changeChannelModes ..
    · exact hears_changeUserModes ..

theorem hears_channelModeIs (line : Line) (now : Moment) : s.Hears (s.channelModeIs line now) := by
  unfold channelModeIs
  split
  · exact hears_changeChannelModes ..
  · exact hears_stay s

theorem hears_userModeIs (line : Line) : s.Hears (s.userModeIs line) := by
  unfold userModeIs
  split
  · exact hears_changeUserModes ..
  · exact hears_stay s

/-- The lists of a channel are taken in without an answer. -/
theorem hears_listReply (line : Line) (numeric : ListNumeric) :
    s.Hears (s.listReply line numeric) := by
  unfold listReply
  simp only
  split
  · exact hears_stay s
  · split
    · exact hears_learned (by simp [Function.comp_def, Event.sent?])
    · exact hears_learned rfl

/-- A NICK may be our own, which changes the nickname that is asked for, but sends nothing. -/
theorem hears_nick (line : Line) : s.Hears (s.nick line) := by
  unfold nick
  split
  · exact hears_stay s
  · exact ⟨rfl, rfl, rfl, rfl, rfl⟩

theorem hears_quit (line : Line) : s.Hears (s.quit line) :=
  hears_learned (by simp [Function.comp_def, Event.sent?])

theorem hears_awayNotify (line : Line) : s.Hears (s.awayNotify line) := by
  unfold awayNotify
  simp only
  split
  · exact hears_learned rfl
  · exact hears_learned rfl

theorem hears_awayReply (line : Line) : s.Hears (s.awayReply line) := by
  unfold awayReply
  split
  · exact hears_stay s
  · exact hears_learned rfl

theorem hears_whoReply (line : Line) : s.Hears (s.whoReply line) := by
  unfold whoReply
  split
  · split
    · exact hears_stay s
    · exact hears_learned rfl
  · exact hears_stay s

theorem hears_whoisUser (line : Line) : s.Hears (s.whoisUser line) := by
  unfold whoisUser
  split
  · exact hears_learned rfl
  · exact hears_stay s

theorem sent?_delivered (n : Network) (target : String) (sender : Hostmask)
    (utterance : Utterance) : [delivered n target sender utterance].filterMap Event.sent? = [] := by
  unfold delivered
  simp only
  split <;> rfl

theorem hears_privmsg (line : Line) : s.Hears (s.privmsg line) := by
  unfold privmsg
  split
  · exact hears_learned (sent?_delivered ..)
  · exact hears_stay s

theorem hears_notice (line : Line) : s.Hears (s.notice line) := by
  unfold notice
  split
  · simp only
    split
    · exact hears_tells rfl
    · exact hears_learned (sent?_delivered ..)
  · exact hears_stay s

end Hears

section Answers

variable {s : Session}

/-- The nickname that we ask for next, where the last one is taken. -/
def renewal (s : Session) (line : Line) : List String :=
  if s.phase = .connected then []
  else ["NICK " ++ (s.nextNick ((line.param? 1).getD s.attemptedNick)).1]

def ownJoin? (s : Session) (line : Line) : Option String :=
  match line.param? 0, line.source? with
  | some channel, some mask =>
    if s.network.isOwn (Hostmask.ofString mask).nick then some channel else none
  | _, _ => none

/-- A PING is answered by a PONG with its text. -/
theorem sends_serverPing (line : Line) :
    s.Sends ["PONG :" ++ line.trailing] (s.serverPing line) := ⟨rfl, rfl, rfl, rfl, rfl⟩

/-- A refused nickname is answered by another one, as long as we register. -/
theorem sends_nickInUse (line : Line) : s.Sends (s.renewal line) (s.nickInUse line) := by
  unfold nickInUse renewal
  by_cases h : s.phase = .connected
  · have hRegistered : s.isRegistered = true := beq_iff_eq.mpr h
    simp only [if_pos h, if_pos hRegistered]
    exact hears_tells rfl
  · have hRegistered : ¬ s.isRegistered = true := fun hIs => h (beq_iff_eq.mp hIs)
    simp only [if_neg h, if_neg hRegistered]
    exact ⟨rfl, rfl, rfl, rfl, rfl⟩

/-- Our own JOIN is answered by requests for the lists of the channel, if the settings want them. -/
theorem sends_join (line : Line) :
    s.Sends
      ((s.ownJoin? line).elim [] fun channel =>
        if s.config.requestListModesOnJoin then
          listRequests s.config (s.join line).session.network channel
        else [])
      (s.join line) := by
  unfold join ownJoin?
  cases line.param? 0 with
  | none => exact hears_stay s
  | some channel =>
      cases line.source? with
      | none => exact hears_stay s
      | some mask =>
          by_cases hOwn : s.network.isOwn (Hostmask.ofString mask).nick = true
          · simp only [if_pos hOwn]
            exact ⟨rfl, rfl, rfl, rfl, rfl⟩
          · simp only [if_neg hOwn]
            exact hears_learned rfl

def greeted (s : Session) : Lifecycle :=
  if s.phase = .registering then { s.lifecycle with phase := .connected } else s.lifecycle

/-- A greeting makes the connection complete, without an answer. -/
theorem answers_welcome (line : Line) : s.Answers [] s.greeted s.ping (s.welcome line) := by
  unfold welcome
  simp only
  split
  next h => exact ⟨rfl, (if_pos h).symm, rfl, rfl, rfl⟩
  next h => exact ⟨rfl, (if_neg h).symm, rfl, rfl, rfl⟩

/-- A PONG is for the keepalive alone. -/
theorem answers_serverPong (line : Line) (now : Moment) :
    s.Answers [] s.lifecycle (s.ping.pong line.trailing now.millis).2 (s.serverPong line now) := by
  unfold serverPong
  cases hPending : s.ping.pending with
  | none =>
      have hPong : s.ping.pong line.trailing now.millis = (none, s.ping) := by
        simp only [PingTracker.pong, hPending]
      rw [hPong]
      exact hears_stay s
  | some p =>
      by_cases hToken : p.token = line.trailing
      · have hPong : s.ping.pong line.trailing now.millis =
            (some (now.millis - p.sent), { s.ping with pending := none }) := by
          simp only [PingTracker.pong, hPending, if_pos hToken]
        rw [hPong]
        exact ⟨rfl, rfl, rfl, rfl, rfl⟩
      · have hPong : s.ping.pong line.trailing now.millis = (none, s.ping) := by
          simp only [PingTracker.pong, hPending, if_neg hToken]
        rw [hPong]
        exact hears_stay s

/-- Of all numerics, only refusals of the nickname are answered and only the greeting moves the
connection on. -/
theorem answers_namedNumeric (line : Line) (now : Moment) (n : Numeric) :
    s.Answers (if n = .nicknameInUse ∨ n = .unavailResource then s.renewal line else [])
      (if n = .welcome then s.greeted else s.lifecycle) s.ping (s.namedNumeric line now n) := by
  unfold namedNumeric
  by_cases hRefused : n.isJoinFailure = true
  · rw [if_pos hRefused, if_neg (by rintro (rfl | rfl) <;> cases hRefused),
      if_neg (by rintro rfl; cases hRefused)]
    exact hears_joinRefused line n.code
  · rw [if_neg hRefused]
    cases n
    case welcome => exact answers_welcome line
    case myInfo => exact hears_serverInfo line
    case isupport => exact ⟨rfl, rfl, rfl, rfl, rfl⟩
    case motdStart => exact hears_tells rfl
    case motd => exact hears_tells rfl
    case endOfMotd => exact hears_motdEnd false
    case noMotd => exact hears_motdEnd true
    case nicknameInUse => exact sends_nickInUse line
    case unavailResource => exact sends_nickInUse line
    case noTopic => exact hears_noTopic line
    case topic => exact hears_topicIs line
    case topicWhoTime => exact hears_topicWhoTime line
    case namReply => exact hears_names line
    case endOfNames => exact hears_endOfNames line
    case creationTime => exact hears_creationTime line
    case whoReply => exact hears_whoReply line
    case whoisUser => exact hears_whoisUser line
    case away => exact hears_awayReply line
    case unaway => exact hears_learned rfl
    case nowAway => exact hears_learned rfl
    case loggedIn => exact hears_learned rfl
    case loggedOut => exact hears_learned rfl
    case channelModeIs => exact hears_channelModeIs line now
    case umodeIs => exact hears_userModeIs line
    all_goals exact hears_stay s

/-- What a numeric reply makes us send. One that the server has announced as a list numeric is no
refusal of a nickname. -/
def numericAnswer (s : Session) (line : Line) (code : Nat) : List String :=
  if ListNumeric.ofCode? s.network.support code = none ∧ (code = 433 ∨ code = 437) then
    s.renewal line
  else []

def numericLife (s : Session) (code : Nat) : Lifecycle :=
  if ListNumeric.ofCode? s.network.support code = none ∧ code = 1 then s.greeted else s.lifecycle

/-- A numeric that the server uses for lists is taken for a list, whatever its name would be. -/
theorem answers_numericReply (line : Line) (now : Moment) (code : Nat) :
    s.Answers (s.numericAnswer line code) (s.numericLife code) s.ping
      (s.numericReply line now code) := by
  unfold numericReply
  refine Hears.andThen (hears_tells rfl) ?_
  simp only [session_tells]
  unfold numericAnswer numericLife
  cases ListNumeric.ofCode? s.network.support code with
  | some list =>
      rw [if_neg fun h => Option.some_ne_none list h.1, if_neg fun h => Option.some_ne_none list h.1]
      exact hears_listReply line list
  | none =>
      cases hNumeric : Numeric.ofCode? code with
      | none =>
          rw [if_neg (by rintro ⟨_, rfl | rfl⟩ <;> cases hNumeric),
            if_neg (by rintro ⟨_, rfl⟩; cases hNumeric)]
          exact hears_stay s
      | some n =>
          have hTaken : (n = .nicknameInUse ∨ n = .unavailResource) ↔ code = 433 ∨ code = 437 := by
            rw [Numeric.eq_iff_of_ofCode? hNumeric, Numeric.eq_iff_of_ofCode? hNumeric]
            rfl
          have hWelcome : n = .welcome ↔ code = 1 := Numeric.eq_iff_of_ofCode? hNumeric
          have hNamed := s.answers_namedNumeric line now n
          simp only [hTaken, hWelcome] at hNamed
          simpa only [true_and] using hNamed

/-- What a line with a word for its command makes us send, by the state after it. -/
def commandAnswer (s : Session) (line : Line) (after : Session) : List String :=
  if line.command = "PING" then ["PONG :" ++ line.trailing]
  else if line.command = "JOIN" then
    (s.ownJoin? line).elim [] fun channel =>
      if s.config.requestListModesOnJoin then listRequests s.config after.network channel else []
  else []

/-- Of all words, a PING and our own JOIN are answered, and a PONG is for the keepalive. -/
theorem answers_command (line : Line) (now : Moment) :
    s.Answers (s.commandAnswer line (s.command line now).session) s.lifecycle
      (line.pong?.elim s.ping fun token => (s.ping.pong token now.millis).2)
      (s.command line now) := by
  unfold commandAnswer Line.pong?
  by_cases hPing : line.command = "PING"
  · have hStep : s.command line now = s.serverPing line := by simp only [command, hPing]
    rw [if_pos hPing, if_neg (by rw [hPing]; decide), hStep]
    exact sends_serverPing line
  by_cases hJoin : line.command = "JOIN"
  · have hStep : s.command line now = s.join line := by simp only [command, hJoin]
    rw [if_neg hPing, if_pos hJoin, if_neg (by rw [hJoin]; decide), hStep]
    exact sends_join line
  by_cases hPong : line.command = "PONG"
  · have hStep : s.command line now = s.serverPong line now := by simp only [command, hPong]
    rw [if_neg hPing, if_neg hJoin, if_pos hPong, hStep]
    exact answers_serverPong line now
  · rw [if_neg hPing, if_neg hJoin, if_neg hPong]
    unfold command
    split
    case h_1 hCommand => exact absurd hCommand hPing
    case h_2 hCommand => exact absurd hCommand hPong
    case h_4 hCommand => exact absurd hCommand hJoin
    case h_3 => exact hears_tells rfl
    case h_5 => exact hears_part line
    case h_6 => exact hears_kick line
    case h_7 => exact hears_topic line now
    case h_8 => exact hears_invite line
    case h_9 => exact hears_nick line
    case h_10 => exact hears_quit line
    case h_11 => exact hears_awayNotify line
    case h_12 => exact hears_mode line now
    case h_13 => exact hears_privmsg line
    case h_14 => exact hears_notice line
    case h_15 => exact hears_tells rfl
    case h_16 => exact hears_stay s

/-- The state that a line finds: if it ends a run of announcements, these have taken effect. -/
def settledFor (s : Session) (line : Line) : Session :=
  if s.supportPending && line.numeric? != some Numeric.isupport.code then s.settleSupport.session
  else s

theorem lifecycle_settledFor (s : Session) (line : Line) :
    (s.settledFor line).lifecycle = s.lifecycle := by
  unfold settledFor
  split <;> rfl

theorem config_settledFor (s : Session) (line : Line) :
    (s.settledFor line).config = s.config := by
  unfold settledFor
  split <;> rfl

theorem ping_settledFor (s : Session) (line : Line) : (s.settledFor line).ping = s.ping := by
  unfold settledFor
  split <;> rfl

/-- A line is dealt with in two steps, of which the first settles announcements and is never
answered. -/
theorem handle_eq (s : Session) (line : Line) (now : Moment) :
    ∃ settled : Step, s.Hears settled ∧ settled.session = s.settledFor line ∧
      s.handle line now = settled.andThen fun s =>
        match line.numeric? with
        | some code => s.numericReply line now code
        | none => s.command line now := by
  unfold settledFor handle
  split
  · exact ⟨s.settleSupport, hears_settleSupport s, rfl, rfl⟩
  · exact ⟨s.stay, hears_stay s, rfl, rfl⟩

/-- What a line makes us send, by the state after it. -/
def answer (s : Session) (line : Line) (after : Session) : List String :=
  match line.numeric? with
  | some code => s.numericAnswer line code
  | none => s.commandAnswer line after

def lifeAfter (s : Session) (line : Line) : Lifecycle :=
  (line.numeric?.map s.numericLife).getD s.lifecycle

/-- A line leaves the life of the connection as it is, or greets us while we register. -/
theorem lifeAfter_cases (s : Session) (line : Line) :
    s.lifeAfter line = s.lifecycle ∨
      line.numeric? = some 1 ∧ s.phase = .registering ∧
        s.lifeAfter line = { s.lifecycle with phase := .connected } := by
  unfold lifeAfter
  cases line.numeric? with
  | none => exact .inl rfl
  | some code =>
      rw [Option.map_some, Option.getD_some, numericLife]
      split
      next hWelcome =>
        rw [greeted]
        split
        next hPhase => exact .inr ⟨congrArg some hWelcome.2, hPhase, rfl⟩
        · exact .inl rfl
      · exact .inl rfl

/-- All that a line can make us send, and all that it can do to the connection. -/
theorem answers_handle (line : Line) (now : Moment) :
    s.Answers ((s.settledFor line).answer line (s.handle line now).session)
      ((s.settledFor line).lifeAfter line)
      (line.pong?.elim s.ping fun token => (s.ping.pong token now.millis).2)
      (s.handle line now) := by
  obtain ⟨settled, hSettled, hState, hHandle⟩ := s.handle_eq line now
  rw [hHandle, ← hState]
  refine hSettled.andThen ?_
  rw [Step.session_andThen, answer, lifeAfter]
  cases hNumeric : line.numeric? with
  | some code =>
      rw [line.pong?_of_numeric hNumeric]
      have h := settled.session.answers_numericReply line now code
      rw [hSettled.ping_eq] at h
      exact h
  | none =>
      have h := settled.session.answers_command line now
      rw [hSettled.ping_eq] at h
      exact h

/-- A text without the line breaks at its end. -/
def bare (raw : String) : String := String.ofList (Text.trimEnd Text.isLineBreak raw.toList)

/-- The state that a text finds: the server has just been heard. -/
def noticing (s : Session) (now : Moment) : Session :=
  { s with ping := s.ping.activity now.millis }

/-- A text that is no line is told of as malformed, and still shows that the server is there. -/
theorem dispatch_of_unreadable {raw : String} {error : LineError} (now : Moment)
    (h : Line.read (bare raw) = .error error) :
    s.dispatch raw now =
      ⟨s.noticing now, [.dataIn (bare raw), .malformed (bare raw) error], []⟩ := by
  unfold dispatch
  rw [bare] at h
  simp only [h]
  rfl

/-- A text that is a line is told of first and then dealt with as that line. -/
theorem dispatch_of_line {raw : String} {line : Line} (now : Moment)
    (h : Line.read (bare raw) = .ok line) :
    s.dispatch raw now =
      ((s.noticing now).tells [.dataIn (bare raw)]).andThen fun s => s.handle line now := by
  unfold dispatch
  rw [bare] at h
  simp only [h]
  rfl

/-- All that a text can do: what it makes us send is the answer to its line. -/
theorem answers_dispatch {raw : String} {line : Line} (now : Moment)
    (h : Line.read (bare raw) = .ok line) :
    s.Answers (((s.noticing now).settledFor line).answer line (s.dispatch raw now).session)
      (((s.noticing now).settledFor line).lifeAfter line)
      (s.ping.receive now.millis line.pong?).2 (s.dispatch raw now) := by
  have hHeard : (s.noticing now).Hears ((s.noticing now).tells [.dataIn (bare raw)]) :=
    hears_tells rfl
  have hStep := hHeard.andThen (f := fun s => s.handle line now)
    ((s.noticing now).answers_handle line now)
  have hPing : line.pong?.elim (s.noticing now).ping
      (fun token => ((s.noticing now).ping.pong token now.millis).2) =
      (s.ping.receive now.millis line.pong?).2 := by
    cases line.pong? <;> rfl
  rw [dispatch_of_line now h]
  exact ⟨hStep.config, hStep.lifecycle_eq, hStep.ping_eq.trans hPing, hStep.lines_eq, hStep.silent⟩

/-- Whatever the text, no event of its own announces a line, and the first one tells of it. -/
theorem events_dispatch (s : Session) (raw : String) (now : Moment) :
    (s.dispatch raw now).events.filterMap Event.sent? = [] ∧
      (s.dispatch raw now).events.head? = some (.dataIn (bare raw)) := by
  cases h : Line.read (bare raw) with
  | error e =>
      rw [dispatch_of_unreadable now h]
      exact ⟨rfl, rfl⟩
  | ok line =>
      refine ⟨(answers_dispatch now h).silent, ?_⟩
      rw [dispatch_of_line now h]
      rfl

/-- A text moves the life of the connection only by a greeting while we register. -/
theorem lifecycle_dispatch (s : Session) (raw : String) (now : Moment) :
    (s.dispatch raw now).session.lifecycle = s.lifecycle ∨
      ∃ line, Line.read (bare raw) = .ok line ∧ line.numeric? = some 1 ∧ s.phase = .registering ∧
        (s.dispatch raw now).session.lifecycle = { s.lifecycle with phase := .connected } := by
  cases hRead : Line.read (bare raw) with
  | error error =>
      rw [dispatch_of_unreadable now hRead]
      exact .inl rfl
  | ok line =>
      have hLife := (answers_dispatch (s := s) now hRead).lifecycle_eq
      have hSettled : ((s.noticing now).settledFor line).lifecycle = s.lifecycle :=
        lifecycle_settledFor ..
      have hCases := ((s.noticing now).settledFor line).lifeAfter_cases line
      rw [← hLife, phase, hSettled] at hCases
      exact hCases.imp_right fun ⟨hCode, hPhase, hGreeted⟩ => ⟨line, rfl, hCode, hPhase, hGreeted⟩

/-- A text leaves the phase as it is, or it ends our registering. -/
theorem phase_dispatch (s : Session) (raw : String) (now : Moment) :
    (s.dispatch raw now).session.phase = s.phase ∨
      s.phase = .registering ∧ (s.dispatch raw now).session.phase = .connected := by
  rcases s.lifecycle_dispatch raw now with hSame | ⟨_, _, _, hPhase, hGreeted⟩
  · exact .inl (congrArg Lifecycle.phase hSame)
  · exact .inr ⟨hPhase, congrArg Lifecycle.phase hGreeted⟩

/-- As long as there is a transport, a poll is one of the keepalive, and its PING goes out. -/
theorem pollPing_of_active (now : Nat) (h : s.phase.isActive = true) :
    (s.pollPing now).1 = (s.ping.poll now).1 ∧
      (s.pollPing now).2.lines = (s.ping.attend now).2.1.toList.map ("PING :" ++ ·) ∧
      (s.pollPing now).2.session = { s with ping := (s.ping.attend now).2.2 } := by
  unfold pollPing PingTracker.attend
  rw [if_pos h]
  obtain ⟨action, ping⟩ := s.ping.poll now
  cases action <;> exact ⟨rfl, rfl, rfl⟩

/-- A poll announces its PING by queuing it, and not by an event of its own. -/
theorem silent_pollPing (now : Nat) :
    (s.pollPing now).2.events.filterMap Event.sent? = [] := by
  unfold pollPing
  split
  · obtain ⟨action, ping⟩ := s.ping.poll now
    cases action <;> rfl
  · rfl

/-- Moving towards the end announces no line. -/
theorem silent_closeMoves (l : Lifecycle) (targets : List Phase) :
    (closeMoves l targets).2.filterMap Event.sent? = [] := by
  induction targets generalizing l with
  | nil => rfl
  | cons target rest ih =>
      unfold closeMoves
      split
      next l' _ => exact ih l'
      next => exact ih l

/-- The end of a connection announces no line. -/
theorem silent_teardown (reason : Option String) :
    (s.teardown reason).events.filterMap Event.sent? = [] := by
  unfold teardown
  split
  · rfl
  · show ((closeMoves s.lifecycle [.closing, .disconnected]).2 ++
      [Event.closed reason]).filterMap Event.sent? = []
    rw [List.filterMap_append, silent_closeMoves]
    rfl

/-- The lines of registration are announced as they are queued, and not by the step itself. -/
theorem silent_connected {step : Step} (h : s.connected = .ok step) :
    step.events.filterMap Event.sent? = [] := by
  unfold connected at h
  cases hMove : s.lifecycle.move .registering with
  | error cause =>
      rw [hMove] at h
      cases h
  | ok lifecycle =>
      rw [hMove] at h
      cases h
      rfl

end Answers

end Session

end Irc
