/-!
The life of one connection: disconnected, connecting, registering, connected, closing, and
disconnected for good. A connection that has ended does not begin again.
-/
namespace Irc

inductive Phase
  | disconnected
  /-- The transport is being opened. -/
  | connecting
  /-- The transport is open, and the server has not welcomed us yet. -/
  | registering
  | connected
  | closing
deriving Repr, DecidableEq

namespace Phase

instance : Inhabited Phase := ⟨disconnected⟩

def name : Phase → String
  | disconnected => "disconnected"
  | connecting => "connecting"
  | registering => "registering"
  | connected => "connected"
  | closing => "closing"

/-- Whether there is a transport. -/
def isActive (p : Phase) : Bool := p != disconnected

def allows : Phase → Phase → Bool
  | disconnected, connecting | connecting, registering | registering, connected
  | connecting, closing | registering, closing | connected, closing
  | closing, disconnected => true
  | _, _ => false

end Phase

structure TransitionError where
  source : Phase
  target : Phase
deriving Repr, DecidableEq

namespace TransitionError

def message (e : TransitionError) : String :=
  "invalid state transition: " ++ e.source.name ++ " -> " ++ e.target.name

end TransitionError

/-- The phase of a connection, and whether it has ended. -/
structure Lifecycle where
  phase : Phase
  ended : Bool
deriving Repr, DecidableEq

namespace Lifecycle

def new : Lifecycle := ⟨.disconnected, false⟩

instance : Inhabited Lifecycle := ⟨new⟩

def allows (l : Lifecycle) (target : Phase) : Bool :=
  l.phase.allows target && !(l.ended && target == .connecting)

def move (l : Lifecycle) (target : Phase) : Except TransitionError Lifecycle :=
  if l.allows target then .ok ⟨target, l.ended || target == .disconnected⟩
  else .error ⟨l.phase, target⟩

end Lifecycle

end Irc
