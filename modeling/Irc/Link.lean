import Irc.Engine
import Irc.Framing
/-!
A connection over a transport. It takes turns: in each one it gives the lines that wait to the
writer and then attends to one thing that is ready, in whatever order such things become ready.
Lines and requests are each taken in the order they came in. The first thing that ends the
connection is the last one attended to; the lines that still wait go to the writer after it,
unless it was the writer that ended.
-/
namespace Irc

inductive Request
  | raw (line : String)
  | disconnect (reason : String)
deriving Repr, DecidableEq

inductive Attention
  /-- The next line from the server, or the end of its lines. -/
  | input
  | readFailed (cause : String)
  | request
  | writeFailed (cause : String)
  | writerClosed
  /-- The writer has been stopped by force. -/
  | writerAborted (cause : String)
  | tick
deriving Repr, DecidableEq

structure Link (μ : Type) where
  engine : Engine μ
  /-- What the server has sent and has not been attended to. -/
  input : Framer
  inputEnded : Bool
  inbox : List Request
  /-- Lines given to the writer, oldest first. -/
  handed : List String
  /-- How many more lines the writer will take. There is no limit as long as it runs. -/
  room : Option Nat
  ended : Bool

/-- What came of a turn: the events in the order they were fired, and the link after it. -/
structure LinkTurn (μ : Type) where
  fired : List Event
  link : Link μ

namespace Link

variable {μ : Type}

/-- Gives the waiting lines to the writer. The first one that it does not take is lost with all
that come after it. -/
def flush (l : Link μ) : Link μ :=
  let (lines, engine) := l.engine.takeOutbound
  { l with
    engine := engine
    handed := l.handed ++ l.room.elim lines lines.take
    room := l.room.map (· - lines.length) }

theorem outbound_flush (l : Link μ) : l.flush.engine.outbound = [] := rfl

/-- Giving lines away changes neither what was given before nor the order of lines. -/
theorem handed_flush {l : Link μ} (h : l.room = none) :
    l.flush.handed = l.handed ++ l.engine.outbound := by
  simp [flush, Engine.takeOutbound, h]

/-- A connection that has been set going: the engine registers with the server, and its
transport is being opened if that has not been told to it before. -/
def start (fuel : Nat) (e : Engine μ) : Except ConnectionError (Option (LinkTurn μ)) := do
  let opened ←
    match e.phase with
    | .disconnected => e.connecting fuel
    | _ => .ok (some ⟨[], e⟩)
  match opened with
  | none => return none
  | some t =>
    return (← t.engine.connected fuel).map fun u =>
      ⟨t.fired ++ u.fired, ⟨u.engine, Framer.new none, false, [], [], none, false⟩⟩

def receive (l : Link μ) (bytes : List UInt8) : Link μ := { l with input := l.input.feed bytes }

def closeInput (l : Link μ) : Link μ := { l with inputEnded := true }

/-- Makes a request, which a connection that is over refuses. -/
def post (l : Link μ) (r : Request) : Except ConnectionError (Link μ) :=
  if l.ended then .error .closed else .ok { l with inbox := l.inbox ++ [r] }

/-- The writer gives up after some more lines. One that has given up does not begin again. -/
def stopWriter (l : Link μ) (lines : Nat) : Link μ :=
  { l with room := some ((l.room.map (min lines)).getD lines) }

/-- Goes on after a call on the engine. -/
def goOn (l : Link μ) (t : Turn μ) : LinkTurn μ := ⟨t.fired, { l with engine := t.engine }⟩

/-- Is over after a call on the engine. -/
def finish (l : Link μ) (t : Turn μ) : LinkTurn μ :=
  ⟨t.fired, { l with engine := t.engine, ended := true }⟩

/-- Is over after a call on the engine; what waits still goes to the writer. -/
def finishFlushed (l : Link μ) (t : Turn μ) : LinkTurn μ :=
  ⟨t.fired, { l with engine := t.engine, ended := true }.flush⟩

/-- Is over because the writer has ended, which takes nothing that still waits. -/
def loseWriter (fuel : Nat) (l : Link μ) (reason : String) : Option (LinkTurn μ) :=
  (l.engine.connectionLost fuel (some reason)).map { l with room := some 0 }.finish

/-- The next line from the server, if it is complete or there is no more to come. -/
def nextLine (l : Link μ) : Except FrameError (Option String) × Framer :=
  if l.inputEnded then l.input.nextAtEnd else l.input.next

/-- Attends to one thing. A thing that is not ready changes nothing. -/
def attend (fuel : Nat) (l : Link μ) (now : Moment) : Attention → Option (LinkTurn μ)
  | .input =>
    let (line, input) := l.nextLine
    let l := { l with input }
    match line with
    | .ok (some line) => (l.engine.dispatch fuel line now).map l.goOn
    | .ok none =>
      if l.inputEnded then
        (l.engine.connectionLost fuel (some "connection closed by peer")).map l.finishFlushed
      else some ⟨[], l⟩
    | .error e => (l.engine.connectionLost fuel (some e.message)).map l.finishFlushed
  | .readFailed cause =>
    (l.engine.connectionLost fuel (some (ConnectionError.io cause).message)).map l.finishFlushed
  | .request =>
    match l.inbox with
    | [] => some ⟨[], l⟩
    | r :: rest =>
      let l := { l with inbox := rest }
      match r with
      | .raw line => (l.engine.sendLine fuel line).map l.goOn
      | .disconnect reason => (l.engine.disconnect fuel reason).map l.finishFlushed
  | .writeFailed cause => l.loseWriter fuel ("write failed: " ++ (ConnectionError.io cause).message)
  | .writerClosed => l.loseWriter fuel "writer closed"
  | .writerAborted cause => l.loseWriter fuel ("writer task failed: " ++ cause)
  | .tick =>
    match l.engine.pollPing fuel now.millis with
    | (.timedOut, t) => t.bind fun t =>
        (t.andThen fun e => e.connectionLost fuel (some "ping timeout")).map l.finishFlushed
    | (_, t) => t.map l.goOn

/-- One turn. A connection that is over takes none. -/
def turn (fuel : Nat) (l : Link μ) (now : Moment) (a : Attention) : Option (LinkTurn μ) :=
  if l.ended then some ⟨[], l⟩ else l.flush.attend fuel now a

/-- What is ready, of what has arrived: lines before requests. -/
def ready? (l : Link μ) : Option Attention :=
  if l.ended then none
  else
    match l.nextLine.1, l.inputEnded, l.inbox with
    | .ok none, false, [] => none
    | .ok none, false, _ :: _ => some .request
    | _, _, _ => some .input

/-- Takes turns for what has arrived, `turns` at the most. -/
def settleWithin (fuel : Nat) (now : Moment) : Nat → Link μ → Option (LinkTurn μ)
  | 0, l => some ⟨[], l⟩
  | turns + 1, l =>
    match l.ready? with
    | none => some ⟨[], if l.ended then l else l.flush⟩
    | some a =>
      (l.turn fuel now a).bind fun t =>
        (settleWithin fuel now turns t.link).map fun u => ⟨t.fired ++ u.fired, u.link⟩

/-- Takes turns until nothing that has arrived is left. Each turn takes a byte or a request, or
ends the connection. -/
def settle (fuel : Nat) (l : Link μ) (now : Moment) : Option (LinkTurn μ) :=
  settleWithin fuel now (l.input.buffer.length + l.inbox.length + 2) l

end Link

end Irc
