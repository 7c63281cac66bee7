import Irc.Session.Users
/-!
Messages and notices, to channels and to us, with the requests and answers between clients that
they carry between two characters U+0001.
-/
namespace Irc.Session

def delimiter : Char := '\x01'

/-- The command, in upper case, and the arguments of a client request. The closing delimiter
may be missing. -/
def clientRequest? (text : String) : Option (String × String) :=
  match text.toList with
  | [] => none
  | c :: rest =>
    if c = delimiter then
      let body := if rest.getLast? = some delimiter then rest.dropLast else rest
      if body.isEmpty then none
      else
        let parts := (Text.cut ' ' body).getD (body, [])
        some (Text.upper (String.ofList parts.1), String.ofList parts.2)
    else none

/-- Whether a character before a channel's name narrows a message to members with a status. -/
def isStatusMark (n : Network) (c : Char) : Bool :=
  if n.support.statusTargets = "" then n.modes.isGlyph c
  else n.support.statusTargets.toList.contains c

/-- A message's target without the status marks in front of a channel's name. -/
def plainTarget (n : Network) (target : String) : String :=
  let stripped := String.ofList (target.toList.dropWhile (isStatusMark n))
  if stripped ≠ target ∧ n.isChannelName stripped then stripped else target

/-- A message to a channel, or to us. -/
def delivered (n : Network) (target : String) (sender : Hostmask) (utterance : Utterance) :
    Event :=
  let target := plainTarget n target
  if n.isChannelName target then .channelMessage target sender utterance
  else .privateMessage sender utterance

/-- A known sender's source tells the parts that were missing. -/
def learnSender (n : Network) (sender : Hostmask) : Network :=
  learn n sender.nick fun c => c.learn sender.ident sender.host

def privmsg (s : Session) (line : Line) : Step :=
  match line.params with
  | target :: text :: _ =>
    let sender := line.source
    let s := s.withNetwork (learnSender s.network sender)
    let utterance : Utterance :=
      match clientRequest? text with
      | some (command, arguments) =>
        if command = "ACTION" then .action arguments else .request command arguments
      | none => .text text
    s.tells [delivered s.network target sender utterance]
  | _ => s.stay

/-- NOTICE. One from a server, or from anyone before we are registered, is the server's. -/
def notice (s : Session) (line : Line) : Step :=
  match line.params with
  | target :: text :: _ =>
    let sender := line.source
    if line.source?.isNone || sender.isServer || !s.isRegistered then
      let source := if sender.nick = "" then s.network.info.serverName else sender.nick
      s.tells [.serverNotice source text]
    else
      let s := s.withNetwork (learnSender s.network sender)
      let utterance : Utterance :=
        match clientRequest? text with
        | some (command, arguments) => .reply command arguments
        | none => .notice text
      s.tells [delivered s.network target sender utterance]
  | _ => s.stay

def wallops (s : Session) (line : Line) : Step := s.tells [.wallops line.source line.trailing]

end Irc.Session
