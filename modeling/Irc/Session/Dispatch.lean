import Irc.Session.Messages
import Irc.Session.Registration
import Irc.Session.Topics
/-!
What a session does with each line, and with everything else that happens to its connection.
-/
namespace Irc.Session

/-- A line with a word for its command. Unknown commands are ignored. -/
def command (s : Session) (line : Line) (now : Moment) : Step :=
  match line.command with
  | "PING" => s.serverPing line
  | "PONG" => s.serverPong line now
  | "ERROR" => s.serverError line
  | "JOIN" => s.join line
  | "PART" => s.part line
  | "KICK" => s.kick line
  | "TOPIC" => s.topic line now
  | "INVITE" => s.invite line
  | "NICK" => s.nick line
  | "QUIT" => s.quit line
  | "AWAY" => s.awayNotify line
  | "MODE" => s.mode line now
  | "PRIVMSG" => s.privmsg line
  | "NOTICE" => s.notice line
  | "WALLOPS" => s.wallops line
  | _ => s.stay

/-- A numeric reply known by name that is no list reply. -/
def namedNumeric (s : Session) (line : Line) (now : Moment) (numeric : Numeric) : Step :=
  if numeric.isJoinFailure then s.joinRefused line numeric.code
  else
    match numeric with
    | .welcome => s.welcome line
    | .myInfo => s.serverInfo line
    | .isupport => s.supportLine line
    | .motdStart => s.motdStart line
    | .motd => s.motdLine line
    | .endOfMotd => s.motdEnd false
    | .noMotd => s.motdEnd true
    | .nicknameInUse | .unavailResource => s.nickInUse line
    | .noTopic => s.noTopic line
    | .topic => s.topicIs line
    | .topicWhoTime => s.topicWhoTime line
    | .namReply => s.names line
    | .endOfNames => s.endOfNames line
    | .creationTime => s.creationTime line
    | .whoReply => s.whoReply line
    | .whoisUser => s.whoisUser line
    | .away => s.awayReply line
    | .unaway => s.ownAway false
    | .nowAway => s.ownAway true
    | .loggedIn => s.ownAccount (line.param? 2)
    | .loggedOut => s.ownAccount none
    | .channelModeIs => s.channelModeIs line now
    | .umodeIs => s.userModeIs line
    | _ => s.stay

/-- A numeric reply: told of as such, and then taken as a list reply or by its name. -/
def numericReply (s : Session) (line : Line) (now : Moment) (code : Nat) : Step :=
  (s.tells [.numeric code line.params]).andThen fun s =>
    match ListNumeric.ofCode? s.network.support code with
    | some list => s.listReply line list
    | none =>
      match Numeric.ofCode? code with
      | some numeric => s.namedNumeric line now numeric
      | none => s.stay

/-- One line. The first one that is no 005 line ends a run of such lines. -/
def handle (s : Session) (line : Line) (now : Moment) : Step :=
  let settled :=
    if s.supportPending && line.numeric? != some Numeric.isupport.code then s.settleSupport
    else s.stay
  settled.andThen fun s =>
    match line.numeric? with
    | some code => s.numericReply line now code
    | none => s.command line now

/-- A text from the server. One that is no line changes nothing but the keepalive. -/
def dispatch (s : Session) (raw : String) (now : Moment) : Step :=
  let text := String.ofList (Text.trimEnd Text.isLineBreak raw.toList)
  let s := { s with ping := s.ping.activity now.millis }
  (s.tells [.dataIn text]).andThen fun s =>
    match Line.read text with
    | .ok line => s.handle line now
    | .error e => s.tells [.malformed text e]

def connecting (s : Session) : Except TransitionError Step := do
  let lifecycle ← s.lifecycle.move .connecting
  return { s with lifecycle }.tells [.phaseChanged s.phase .connecting]

def registrationLines (c : Config) : List String :=
  (c.password.map ("PASS " ++ ·)).toList ++
    ["NICK " ++ c.nickname, "USER " ++ c.username ++ " 0 * :" ++ c.realname]

/-- The transport is open: we register. -/
def connected (s : Session) : Except TransitionError Step := do
  let lifecycle ← s.lifecycle.move .registering
  return ⟨{ s with lifecycle }, [.phaseChanged s.phase .registering], registrationLines s.config⟩

def requestListModes (s : Session) (channel : String) : Step :=
  s.sends (listRequests s.config s.network channel)

/-- Looks after the keepalive, while there is a transport. A PING that is due goes out. -/
def pollPing (s : Session) (now : Nat) : PingAction × Step :=
  if s.phase.isActive then
    let (action, ping) := s.ping.poll now
    let s := { s with ping := ping }
    match action with
    | .idle => (.idle, s.stay)
    | .sendPing =>
      let (token, ping) := s.ping.start now
      (.sendPing, ⟨{ s with ping := ping }, [.pingSent token], ["PING :" ++ token]⟩)
    | .timedOut => (.timedOut, s.tells [.pingFailed ((s.ping.elapsed? now).getD 0)])
  else (.idle, s.stay)

/-- The moves that end a connection, as far as its life allows them. -/
def closeMoves (l : Lifecycle) : List Phase → Lifecycle × List Event
  | [] => (l, [])
  | target :: rest =>
    match l.move target with
    | .ok l' =>
      let (final, events) := closeMoves l' rest
      (final, .phaseChanged l.phase target :: events)
    | .error _ => closeMoves l rest

/-- The connection is over: its phase, its users and its channels go. Nothing happens if there
is no connection. -/
def teardown (s : Session) (reason : Option String) : Step :=
  match s.phase with
  | .disconnected => s.stay
  | _ =>
    let (lifecycle, events) := closeMoves s.lifecycle [.closing, .disconnected]
    { s with lifecycle := lifecycle, network := s.network.clear }.tells
      (events ++ [Event.closed reason])

/-- The line that takes leave of the server; none where it has not been greeted. -/
def farewell (s : Session) (reason : String) : List String :=
  match s.phase with
  | .registering | .connected => [if reason = "" then "QUIT" else "QUIT :" ++ reason]
  | _ => []

end Irc.Session
