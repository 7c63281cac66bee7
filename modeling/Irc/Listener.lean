import Irc.Event
import Irc.Network
/-!
Who hears of events. A listener sees the event and the state of the network, may remember
things and may ask for lines to be sent. Listeners to everything come first, then those to
events of one kind, each group in the order of subscription. A listener that fails or panics
takes nothing from the others, and the lines that it asked for before that are still sent.

All listeners of one connection share a memory of type `μ`; one that minds its own part of it
has a memory of its own.
-/
namespace Irc

inductive ListenerOutcome
  | done
  | failed
  | panicked
deriving Repr, DecidableEq

/-- What a listener did with an event. -/
structure Reaction (μ : Type) where
  outcome : ListenerOutcome
  lines : List String
  memory : μ

abbrev ListenerId := Nat

structure Subscription (μ : Type) where
  id : ListenerId
  /-- The only target whose events it wants to hear of. -/
  filter : Option String
  react : Event → Network → μ → Reaction μ

/-- The listeners of one connection. Identities are handed out in order and never again. -/
structure Listeners (μ : Type) where
  nextId : ListenerId
  generic : List (Subscription μ)
  specific : List (EventKind × Subscription μ)

namespace Listeners

variable {μ : Type}

def empty : Listeners μ := ⟨0, [], []⟩

instance : Inhabited (Listeners μ) := ⟨empty⟩

def size (l : Listeners μ) : Nat := l.generic.length + l.specific.length

def isEmpty (l : Listeners μ) : Bool := l.size == 0

def subscribeAll (l : Listeners μ) (react : Event → Network → μ → Reaction μ) :
    ListenerId × Listeners μ :=
  (l.nextId,
    { l with nextId := l.nextId + 1, generic := l.generic ++ [⟨l.nextId, none, react⟩] })

/-- Adds a listener to events of one kind, and of one target if a filter is given. -/
def subscribe (l : Listeners μ) (kind : EventKind) (filter : Option String)
    (react : Event → Network → μ → Reaction μ) : ListenerId × Listeners μ :=
  (l.nextId,
    { l with
      nextId := l.nextId + 1
      specific := l.specific ++ [(kind, ⟨l.nextId, filter, react⟩)] })

def has (l : Listeners μ) (id : ListenerId) : Bool :=
  l.generic.any (·.id == id) || l.specific.any (·.2.id == id)

/-- Removes a listener; whether there was such a one. -/
def unsubscribe (l : Listeners μ) (id : ListenerId) : Bool × Listeners μ :=
  (l.has id,
    { l with
      generic := l.generic.filter (·.id != id)
      specific := l.specific.filter (·.2.id != id) })

/-- Whether a filter lets an event of this target through. -/
def admits (network : Network) (target : Option String) : Option String → Bool
  | none => true
  | some filter => target.any fun t => network.sameName t filter

def recipients (l : Listeners μ) (event : Event) (network : Network) : List (Subscription μ) :=
  l.generic ++
    (l.specific.filter fun s =>
      s.1 == event.kind && admits network event.target? s.2.filter).map Prod.snd

/-- What came of telling listeners of an event. -/
structure Firing (μ : Type) where
  called : List ListenerId
  lines : List String
  memory : μ

def Firing.count (f : Firing μ) : Nat := f.called.length

/-- Tells listeners of an event one after the other, however the others fare. -/
def tell (event : Event) (network : Network) : List (Subscription μ) → μ → Firing μ
  | [], memory => ⟨[], [], memory⟩
  | s :: rest, memory =>
    let r := s.react event network memory
    let others := tell event network rest r.memory
    ⟨s.id :: others.called, r.lines ++ others.lines, others.memory⟩

/-- Tells everyone who wants to hear of an event. -/
def fire (l : Listeners μ) (event : Event) (network : Network) (memory : μ) : Firing μ :=
  tell event network (l.recipients event network) memory

/-- Every listener of a list is told once, in order, whatever the others do. -/
theorem called_tell (event : Event) (network : Network) (subscriptions : List (Subscription μ))
    (memory : μ) :
    (tell event network subscriptions memory).called = subscriptions.map Subscription.id := by
  induction subscriptions generalizing memory with
  | nil => rfl
  | cons s rest ih => simp only [tell, List.map_cons, ih]

theorem called_fire (l : Listeners μ) (event : Event) (network : Network) (memory : μ) :
    (l.fire event network memory).called = (l.recipients event network).map Subscription.id :=
  called_tell event network _ memory

end Listeners

end Irc
