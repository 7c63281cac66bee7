import Irc.Session.Basic
/-!
From the greeting to the end of the message of the day: our identity, the server's
announcements, the choice of a nickname, and the keepalive on both sides.
-/
namespace Irc.Session

/-- 001: the server names us. It comes again now and then; only the first one ends the
registration. -/
def welcome (s : Session) (line : Line) : Step :=
  let nick := (line.param? 0).getD s.attemptedNick
  let s := s.withNetwork (s.network.setOwn nick).2
  match s.phase with
  | .registering =>
    { session := { s with lifecycle := { s.lifecycle with phase := .connected } }
      events := [.phaseChanged .registering .connected, .registered nick]
      lines := [] }
  | _ => s.tells [.registered nick]

/-- 004: the server's software and its bare mode letters, from which the table is made anew. -/
def serverInfo (s : Session) (line : Line) : Step :=
  let info := ServerInfo.ofParams line.params
  let n :=
    { s.network with
      info := info
      family := ServerFamily.ofVersion info.version
      modes := ModeTable.ofServer s.network.support info }
  { session := { s with network := n, dialect := s.dialectOf info.version }
    events := [.serverInfo info.serverName info.version]
    lines := [] }

/-- 005: tokens are gathered until another line comes. -/
def supportLine (s : Session) (line : Line) : Step :=
  let n := { s.network with support := s.network.support.absorb line.params }
  { s with network := n, supportPending := true }.stay

/-- The run of 005 lines is over: what they announced takes effect. A case mapping that we do
not know leaves the one in force. -/
def settleSupport (s : Session) : Step :=
  let n :=
    match s.network.support.caseMapping? with
    | some mapping => s.network.setMapping mapping
    | none => s.network
  let n := { n with modes := ModeTable.ofServer n.support n.info }
  { s with network := n, supportPending := false }.tells [.tableRebuilt]

/-- The nickname to ask for after this one was refused: the configured second one, once, and
otherwise the last one with an underscore. -/
def nextNick (s : Session) (refused : String) : String × Bool :=
  match s.config.altNickname with
  | some alt =>
    if !s.triedAlt && !s.network.sameName alt refused then (alt, true)
    else (s.attemptedNick ++ "_", s.triedAlt)
  | none => (s.attemptedNick ++ "_", s.triedAlt)

/-- 433 and 437: the nickname is taken. During registration we ask for another. -/
def nickInUse (s : Session) (line : Line) : Step :=
  let nick := (line.param? 1).getD s.attemptedNick
  if s.isRegistered then s.tells [.nickInUse nick]
  else
    let (next, triedAlt) := s.nextNick nick
    { session := { s with attemptedNick := next, triedAlt := triedAlt }
      events := [.nickInUse nick]
      lines := ["NICK " ++ next] }

def motdStart (s : Session) (line : Line) : Step := s.tells [.motdStart line.trailing]

def motdLine (s : Session) (line : Line) : Step := s.tells [.motdLine line.trailing]

/-- 376 and 422: the greeting is over, with or without a message of the day. -/
def motdEnd (s : Session) (missing : Bool) : Step :=
  if s.ready then s.tells [.motdEnd missing]
  else { s with ready := true }.tells [.motdEnd missing, .serverReady]

/-- PING is answered at once. -/
def serverPing (s : Session) (line : Line) : Step :=
  ⟨s, [.serverPing line.trailing], ["PONG :" ++ line.trailing]⟩

/-- PONG counts if it answers our PING. -/
def serverPong (s : Session) (line : Line) (now : Moment) : Step :=
  let (lag?, ping) := s.ping.pong line.trailing now.millis
  match lag? with
  | some lag => { s with ping := ping }.tells [.pingAnswered lag]
  | none => s.stay

def serverError (s : Session) (line : Line) : Step := s.tells [.serverError line.trailing]

end Irc.Session
