import Irc.Config
import Irc.Event
import Irc.Line
import Irc.Network
import Irc.Ping
/-!
The protocol of one connection, listeners and transport left aside: a session takes a line, a
change of the transport or a request, and gives a new session, the events to tell of and the
lines to send.
-/
namespace Irc

/-- A reading of the clocks. -/
structure Moment where
  /-- Milliseconds on a clock that never runs back. -/
  millis : Nat
  /-- Seconds since 1970. -/
  seconds : Int
deriving Repr, DecidableEq

/-- The protocol state of one connection. -/
structure Session where
  config : Config
  /-- The dialect to assume for a server's version string. -/
  dialectOf : String → ListDialect
  network : Network
  lifecycle : Lifecycle
  attemptedNick : String
  triedAlt : Bool
  /-- Whether the server's greeting is over. -/
  ready : Bool
  /-- Whether 005 lines have come since the mode table was made. -/
  supportPending : Bool
  dialect : ListDialect
  ping : PingTracker

namespace Session

/-- A session before its connection; the settings are taken to be sound. -/
def new (config : Config) (dialectOf : String → ListDialect) : Session where
  config := config
  dialectOf := dialectOf
  network := Network.new
  lifecycle := Lifecycle.new
  attemptedNick := config.nickname
  triedAlt := false
  ready := false
  supportPending := false
  dialect := dialectOf ""
  ping := PingTracker.new (1000 * config.pingInterval) (1000 * config.pingTimeout)

def phase (s : Session) : Phase := s.lifecycle.phase

def isRegistered (s : Session) : Bool := s.phase == .connected

end Session

/-- What a session does: the session afterwards, the events to tell of and the lines to send. -/
structure Step where
  session : Session
  events : List Event
  lines : List String

namespace Session

def stay (s : Session) : Step := ⟨s, [], []⟩

def tells (s : Session) (events : List Event) : Step := ⟨s, events, []⟩

def sends (s : Session) (lines : List String) : Step := ⟨s, [], lines⟩

def withNetwork (s : Session) (n : Network) : Session := { s with network := n }

end Session

namespace Step

def andThen (a : Step) (f : Session → Step) : Step :=
  let b := f a.session
  ⟨b.session, a.events ++ b.events, a.lines ++ b.lines⟩

end Step

end Irc
