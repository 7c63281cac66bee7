import Irc.Listener
import Irc.Session.Dispatch
/-!
A session with its listeners and the lines that wait for the transport. Each call queues the
lines that the session asks for and fires its events one by one, each with the state as the
call has left it. A line is announced by an event of its own after the events of the call.
Lines that listeners ask for are queued and announced in the same way, so a listener that
answers every such event never lets a call end; the calls therefore take the greatest number
of events that they may fire, and give nothing if there are more.
-/
namespace Irc

inductive ConnectionError
  | config (cause : ConfigError)
  | transition (cause : TransitionError)
  | io (cause : String)
  | closed
deriving Repr, DecidableEq

namespace ConnectionError

def message : ConnectionError → String
  | config cause => "invalid configuration: " ++ cause.message
  | transition cause => cause.message
  | io cause => "io error: " ++ cause
  | closed => "connection closed"

end ConnectionError

/-- The protocol of one connection with those who listen to it. -/
structure Engine (μ : Type) where
  session : Session
  listeners : Listeners μ
  memory : μ
  /-- The lines that wait for the transport, oldest first. -/
  outbound : List String

/-- What came of a call: the events in the order they were fired, and the engine after it. -/
structure Turn (μ : Type) where
  fired : List Event
  engine : Engine μ

namespace Turn

variable {μ : Type}

def andThen (a : Turn μ) (f : Engine μ → Option (Turn μ)) : Option (Turn μ) :=
  (f a.engine).map fun b => ⟨a.fired ++ b.fired, b.engine⟩

end Turn

namespace Engine

variable {μ : Type}

/-- An engine before its connection, without listeners; unsound settings are refused. -/
def new (config : Config) (dialectOf : String → ListDialect) (memory : μ) :
    Except ConnectionError (Engine μ) :=
  match config.validate with
  | .ok config => .ok ⟨Session.new config dialectOf, Listeners.empty, memory, []⟩
  | .error cause => .error (.config cause)

def network (e : Engine μ) : Network := e.session.network

def phase (e : Engine μ) : Phase := e.session.phase

def withNetwork (e : Engine μ) (n : Network) : Engine μ :=
  { e with session := e.session.withNetwork n }

def enqueue (e : Engine μ) (lines : List String) : Engine μ :=
  { e with outbound := e.outbound ++ lines }

/-- Tells the listeners of one event: the lines that they ask for, and the engine with these
queued. -/
def tell (e : Engine μ) (event : Event) : List String × Engine μ :=
  let f := e.listeners.fire event e.network e.memory
  (f.lines, { e with memory := f.memory }.enqueue f.lines)

/-- Fires events in order, and then one for each line that the listeners have asked for. -/
def fireAll : Nat → Engine μ → List Event → Option (Turn μ)
  | _, e, [] => some ⟨[], e⟩
  | 0, _, _ :: _ => none
  | fuel + 1, e, event :: rest =>
    let (lines, e) := e.tell event
    (fireAll fuel e (rest ++ lines.map .dataOut)).map fun t => { t with fired := event :: t.fired }

/-- A call that has come to an end within some number of events comes to the same end within any
greater one. -/
theorem fireAll_mono {fuel more : Nat} {e : Engine μ} {events : List Event} {t : Turn μ}
    (h : fireAll fuel e events = some t) (le : fuel ≤ more) : fireAll more e events = some t := by
  induction fuel generalizing more e events t with
  | zero =>
    cases events with
    | nil => cases more <;> exact h
    | cons event rest => cases h
  | succ fuel ih =>
    cases more with
    | zero => omega
    | succ more =>
      cases events with
      | nil => exact h
      | cons event rest =>
        obtain ⟨u, hu, ht⟩ := Option.map_eq_some_iff.mp h
        exact Option.map_eq_some_iff.mpr ⟨u, ih hu (Nat.le_of_succ_le_succ le), ht⟩

/-- Takes a step of the session: its lines are queued, its events fired, its lines announced. -/
def perform (fuel : Nat) (e : Engine μ) (step : Step) : Option (Turn μ) :=
  fireAll fuel ({ e with session := step.session }.enqueue step.lines)
    (step.events ++ step.lines.map .dataOut)

def dispatch (fuel : Nat) (e : Engine μ) (raw : String) (now : Moment) : Option (Turn μ) :=
  e.perform fuel (e.session.dispatch raw now)

/-- Takes a step that the life of the connection may not allow. -/
def attempt (fuel : Nat) (e : Engine μ) (step : Except TransitionError Step) :
    Except ConnectionError (Option (Turn μ)) :=
  match step with
  | .ok step => .ok (e.perform fuel step)
  | .error cause => .error (.transition cause)

def connecting (fuel : Nat) (e : Engine μ) : Except ConnectionError (Option (Turn μ)) :=
  e.attempt fuel e.session.connecting

/-- The transport is open: we register. -/
def connected (fuel : Nat) (e : Engine μ) : Except ConnectionError (Option (Turn μ)) :=
  e.attempt fuel e.session.connected

def sendLine (fuel : Nat) (e : Engine μ) (line : String) : Option (Turn μ) :=
  e.perform fuel (e.session.sends [line])

def requestListModes (fuel : Nat) (e : Engine μ) (channel : String) : Option (Turn μ) :=
  e.perform fuel (e.session.requestListModes channel)

def pollPing (fuel : Nat) (e : Engine μ) (now : Nat) : PingAction × Option (Turn μ) :=
  let (action, step) := e.session.pollPing now
  (action, e.perform fuel step)

/-- The transport has failed, or the server has closed it. -/
def connectionLost (fuel : Nat) (e : Engine μ) (reason : Option String) : Option (Turn μ) :=
  e.perform fuel (e.session.teardown reason)

/-- Takes leave of the server and ends the connection. -/
def disconnect (fuel : Nat) (e : Engine μ) (reason : String) : Option (Turn μ) :=
  (e.perform fuel (e.session.sends (e.session.farewell reason))).bind fun t =>
    t.andThen fun e => e.connectionLost fuel (some reason)

/-- The lines that wait for the transport, and the engine without them. -/
def takeOutbound (e : Engine μ) : List String × Engine μ := (e.outbound, { e with outbound := [] })

def subscribeAll (e : Engine μ) (react : Event → Network → μ → Reaction μ) :
    ListenerId × Engine μ :=
  let (id, listeners) := e.listeners.subscribeAll react
  (id, { e with listeners })

/-- Adds a listener to events of one kind, and of one target if a filter is given. -/
def subscribe (e : Engine μ) (kind : EventKind) (filter : Option String)
    (react : Event → Network → μ → Reaction μ) : ListenerId × Engine μ :=
  let (id, listeners) := e.listeners.subscribe kind filter react
  (id, { e with listeners })

/-- Removes a listener; whether there was such a one. -/
def unsubscribe (e : Engine μ) (id : ListenerId) : Bool × Engine μ :=
  let (removed, listeners) := e.listeners.unsubscribe id
  (removed, { e with listeners })

end Engine

end Irc
