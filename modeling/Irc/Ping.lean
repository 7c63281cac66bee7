/-!
Watching whether the server still answers. After a silence of one interval a PING is due; if
nothing at all arrives for the timeout after it, the connection counts as dead.

Times are milliseconds on a clock that the caller reads. A time before an earlier one counts
as no time since then.
-/
namespace Irc

inductive PingAction
  | idle
  | sendPing
  | timedOut
deriving Repr, DecidableEq

structure PendingPing where
  token : String
  sent : Nat
deriving Repr, DecidableEq

/-- What is known about the server's silence. -/
structure PingTracker where
  interval : Nat
  timeout : Nat
  lastActivity : Option Nat
  pending : Option PendingPing
  count : Nat
deriving Repr, DecidableEq

namespace PingTracker

/-- A tracker that has seen nothing yet, and stays idle until it does. -/
def new (interval timeout : Nat) : PingTracker := ⟨interval, timeout, none, none, 0⟩

def activity (t : PingTracker) (now : Nat) : PingTracker := { t with lastActivity := some now }

/-- Whether a PING is due when none is outstanding. -/
def due (t : PingTracker) (last now : Nat) : PingAction :=
  if t.interval ≤ now - last then .sendPing else .idle

/-- Decides what to do. An outstanding PING whose time is up is forgotten if the server has
sent anything since. -/
def poll (t : PingTracker) (now : Nat) : PingAction × PingTracker :=
  match t.lastActivity with
  | none => (.idle, t)
  | some last =>
    match t.pending with
    | none => (t.due last now, t)
    | some p =>
      if now - p.sent < t.timeout then (.idle, t)
      else if last ≤ p.sent then (.timedOut, t)
      else (t.due last now, { t with pending := none })

def token (n : Nat) : String := "slirc-" ++ Nat.repr n

/-- A PING goes out: its token. -/
def start (t : PingTracker) (now : Nat) : String × PingTracker :=
  let tok := token (t.count + 1)
  (tok, { t with count := t.count + 1, pending := some ⟨tok, now⟩ })

def elapsed? (t : PingTracker) (now : Nat) : Option Nat := t.pending.map fun p => now - p.sent

/-- A PONG has arrived: the lag, if it answers the outstanding PING. -/
def pong (t : PingTracker) (tok : String) (now : Nat) : Option Nat × PingTracker :=
  match t.pending with
  | some p => if p.token = tok then (some (now - p.sent), { t with pending := none }) else (none, t)
  | none => (none, t)

def isPending (t : PingTracker) : Bool := t.pending.isSome

end PingTracker

end Irc
