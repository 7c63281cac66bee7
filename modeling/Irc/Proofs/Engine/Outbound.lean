import Irc.Engine
import Irc.Proofs.Listener
import Irc.Proofs.Session.Answers
/-! Every line that is queued is announced, once and in the order of the queue, whatever the
listeners do: they may ask for lines at any event, also at the announcement of a line, and those
that fail or panic have asked all the same. -/
namespace Irc

namespace Turn

variable {μ : Type}

/-- The lines that were announced as sent, in order. -/
def announced (t : Turn μ) : List String := t.fired.filterMap Event.sent?

/-- Calls one after the other announce the lines of the first and then those of the second. -/
theorem announced_append (t u : Turn μ) :
    announced ⟨t.fired ++ u.fired, u.engine⟩ = t.announced ++ u.announced :=
  List.filterMap_append ..

/-- Events that announce nothing, and then one for each of some lines. -/
theorem announced_eq {t : Turn μ} {events : List Event} {lines : List String}
    (hFired : t.fired = events ++ lines.map .dataOut)
    (hSilent : events.filterMap Event.sent? = []) : t.announced = lines := by
  rw [announced, hFired, List.filterMap_append, hSilent, List.nil_append, List.filterMap_map]
  exact List.filterMap_some

end Turn

namespace Engine

variable {μ : Type} {fuel : Nat} {e : Engine μ} {t : Turn μ}

/-- The lines that listeners ask for as events are fired. -/
def asked (e : Engine μ) (network : Network) (events : List Event) : List String :=
  (e.listeners.reactions network events e.memory).flatMap Reaction.lines

/-- Each event has its listeners, and they find what those of earlier events have left in memory. -/
theorem asked_cons (e : Engine μ) (event : Event) (rest : List Event) :
    e.asked e.network (event :: rest) =
      (e.tell event).1 ++ (e.tell event).2.asked e.network rest := by
  obtain ⟨hLines, hMemory⟩ :=
    Listeners.tell_eq event e.network (e.listeners.recipients event e.network) e.memory
  rw [asked, Listeners.reactions, List.flatMap_append, ← hLines, ← hMemory]
  rfl

/-- All that firing events does: these are fired, then one for each line that is asked for on the
way, and these lines are queued. -/
theorem fireAll_eq {events : List Event} (h : fireAll fuel e events = some t) :
    t.fired = events ++ (e.asked e.network t.fired).map .dataOut ∧
      t.engine.outbound = e.outbound ++ e.asked e.network t.fired ∧
      t.engine.session = e.session ∧ t.engine.listeners = e.listeners := by
  -- by induction on the number of events, which the lines that are asked for make longer
  induction fuel generalizing e events t with
  | zero =>
      cases events with
      | nil =>
          cases h
          exact ⟨rfl, (List.append_nil _).symm, rfl, rfl⟩
      | cons event rest => cases h
  | succ fuel ih =>
      cases events with
      | nil =>
          cases h
          exact ⟨rfl, (List.append_nil _).symm, rfl, rfl⟩
      | cons event rest =>
          obtain ⟨u, hRest, rfl⟩ := Option.map_eq_some_iff.mp h
          obtain ⟨hFired, hOutbound, hSession, hListeners⟩ := ih hRest
          show event :: u.fired = event :: rest ++ (e.asked e.network (event :: u.fired)).map .dataOut ∧
            u.engine.outbound = e.outbound ++ e.asked e.network (event :: u.fired) ∧ _ ∧ _
          rw [asked_cons, List.map_append, ← List.append_assoc e.outbound]
          refine ⟨congrArg (event :: ·) (hFired.trans (List.append_assoc ..)), hOutbound,
            hSession, hListeners⟩

/-- All that taking a step does: its events are fired and then one for each line, those of the step
and those that listeners ask for on the way, and these lines are queued. -/
structure Delivers (e : Engine μ) (step : Step) (t : Turn μ) : Prop where
  fired : t.fired =
    step.events ++ (step.lines ++ e.asked step.session.network t.fired).map .dataOut
  outbound : t.engine.outbound =
    e.outbound ++ (step.lines ++ e.asked step.session.network t.fired)
  session : t.engine.session = step.session
  listeners : t.engine.listeners = e.listeners

/-- However a call ends its work, it delivers the whole step: no event and no line is dropped, added
or moved. -/
theorem delivers_of_perform {step : Step} (h : e.perform fuel step = some t) :
    e.Delivers step t := by
  obtain ⟨hFired, hOutbound, hSession, hListeners⟩ := fireAll_eq h
  refine ⟨?_, hOutbound.trans (List.append_assoc ..), hSession, hListeners⟩
  rw [List.map_append, ← List.append_assoc]
  exact hFired

/-- The announced lines are those of the step and then those that listeners ask for, as they ask. -/
theorem Delivers.announced {step : Step} (h : e.Delivers step t)
    (hSilent : step.events.filterMap Event.sent? = []) :
    t.announced = step.lines ++ e.asked step.session.network t.fired :=
  Turn.announced_eq h.fired hSilent

/-- Steps taken one after the other. -/
inductive Performs : Engine μ → List Step → Turn μ → Prop
  | nil (e : Engine μ) : Performs e [] ⟨[], e⟩
  | cons {e : Engine μ} {step : Step} {rest : List Step} {t u : Turn μ}
      (first : e.Delivers step t) (next : Performs t.engine rest u) :
      Performs e (step :: rest) ⟨t.fired ++ u.fired, u.engine⟩

theorem Delivers.performs {step : Step} (h : e.Delivers step t) : Performs e [step] t := by
  have hAll := Performs.cons h (.nil t.engine)
  rwa [List.append_nil] at hAll

/-- A call of one step is that step. -/
theorem Performs.single {step : Step} (h : Performs e [step] t) : e.Delivers step t := by
  cases h with
  | cons first next =>
      cases next
      rwa [List.append_nil]

/-- If steps announce nothing of their own, what is announced is what is queued. -/
theorem Performs.outbound_eq {steps : List Step} (h : Performs e steps t)
    (hSilent : ∀ step ∈ steps, step.events.filterMap Event.sent? = []) :
    t.engine.outbound = e.outbound ++ t.announced := by
  induction h with
  | nil e => exact (List.append_nil _).symm
  | @cons e step rest t u first next ih =>
      have hFirst := first.announced (hSilent step List.mem_cons_self)
      have hNext := ih fun step hIn => hSilent step (List.mem_cons_of_mem _ hIn)
      rw [Turn.announced_append, hNext, first.outbound, ← hFirst, List.append_assoc]

/-- The calls that may send lines. -/
inductive Call
  | dispatch (raw : String) (now : Moment)
  | sendLine (line : String)
  | connected
  | pollPing (now : Nat)
  | requestListModes (channel : String)
  | disconnect (reason : String)
  | connectionLost (reason : Option String)

/-- Makes a call. One that is refused does nothing. -/
def call (fuel : Nat) (e : Engine μ) : Call → Option (Turn μ)
  | .dispatch raw now => e.dispatch fuel raw now
  | .sendLine line => e.sendLine fuel line
  | .connected =>
    match e.connected fuel with
    | .ok t => t
    | .error _ => some ⟨[], e⟩
  | .pollPing now => (e.pollPing fuel now).2
  | .requestListModes channel => e.requestListModes fuel channel
  | .disconnect reason => e.disconnect fuel reason
  | .connectionLost reason => e.connectionLost fuel reason

def Call.steps (s : Session) : Call → List Step
  | .dispatch raw now => [s.dispatch raw now]
  | .sendLine line => [s.sends [line]]
  | .connected => s.connected.toOption.toList
  | .pollPing now => [(s.pollPing now).2]
  | .requestListModes channel => [s.requestListModes channel]
  | .disconnect reason => [s.sends (s.farewell reason), s.teardown (some reason)]
  | .connectionLost reason => [s.teardown reason]

/-- No call announces a line but by queuing it. -/
theorem Call.silent (s : Session) (c : Call) :
    ∀ step ∈ c.steps s, step.events.filterMap Event.sent? = [] := by
  cases c with
  | dispatch raw now => exact List.forall_mem_singleton.mpr (s.events_dispatch raw now).1
  | sendLine line => exact List.forall_mem_singleton.mpr rfl
  | connected =>
      intro step hIn
      cases hStep : s.connected with
      | error cause => simp [steps, hStep, Except.toOption] at hIn
      | ok own =>
          have hOwn : step = own := by simpa [steps, hStep, Except.toOption] using hIn
          rw [hOwn]
          exact Session.silent_connected hStep
  | pollPing now => exact List.forall_mem_singleton.mpr (Session.silent_pollPing now)
  | requestListModes channel => exact List.forall_mem_singleton.mpr rfl
  | disconnect reason =>
      exact List.forall_mem_cons.mpr
        ⟨rfl, List.forall_mem_singleton.mpr (Session.silent_teardown (some reason))⟩
  | connectionLost reason => exact List.forall_mem_singleton.mpr (Session.silent_teardown reason)

/-- Only a disconnection takes more than one step. -/
theorem Call.steps_of_ne {c : Call} (h : ∀ reason, c ≠ .disconnect reason) (s : Session) :
    ∃ step? : Option Step, c.steps s = step?.toList := by
  cases c with
  | dispatch raw now => exact ⟨some (s.dispatch raw now), rfl⟩
  | sendLine line => exact ⟨some (s.sends [line]), rfl⟩
  | connected => exact ⟨s.connected.toOption, rfl⟩
  | pollPing now => exact ⟨some (s.pollPing now).2, rfl⟩
  | requestListModes channel => exact ⟨some (s.requestListModes channel), rfl⟩
  | disconnect reason => exact absurd rfl (h reason)
  | connectionLost reason => exact ⟨some (s.teardown reason), rfl⟩

/-- Every call takes its steps in order. -/
theorem performs_of_call {c : Call} (h : e.call fuel c = some t) :
    Performs e (c.steps e.session) t := by
  cases c with
  | dispatch raw now => exact (delivers_of_perform h).performs
  | sendLine line => exact (delivers_of_perform h).performs
  | connected =>
      unfold call Engine.connected at h
      unfold Call.steps
      cases hStep : e.session.connected with
      | ok step =>
          rw [hStep] at h
          exact (delivers_of_perform h).performs
      | error cause =>
          rw [hStep] at h
          cases h
          exact .nil e
  | pollPing now => exact (delivers_of_perform h).performs
  | requestListModes channel => exact (delivers_of_perform h).performs
  | disconnect reason =>
      obtain ⟨t₁, hFirst, hThen⟩ := Option.bind_eq_some_iff.mp h
      obtain ⟨t₂, hNext, rfl⟩ := Option.map_eq_some_iff.mp hThen
      have first := delivers_of_perform hFirst
      have next := delivers_of_perform hNext
      rw [first.session] at next
      exact .cons first next.performs
  | connectionLost reason => exact (delivers_of_perform h).performs

/-- In every call that comes to an end, with any listeners: what is queued is what is announced,
in order; the lines are those of the call's steps and all that listeners ask for on the way,
however their turns end; the call's own events are fired before any announcement; and a
text from the server is told of first. -/
theorem outbound_of_call {c : Call} (h : e.call fuel c = some t) :
    t.engine.outbound = e.outbound ++ t.announced ∧
    Performs e (c.steps e.session) t ∧
    ((∀ reason, c ≠ .disconnect reason) →
      t.fired = (c.steps e.session).flatMap Step.events ++ t.announced.map .dataOut ∧
      ((c.steps e.session).flatMap Step.events).filterMap Event.sent? = []) ∧
    (∀ raw now, c = .dispatch raw now → t.fired.head? = some (.dataIn (Session.bare raw))) := by
  have hPerforms := performs_of_call h
  refine ⟨hPerforms.outbound_eq (c.silent e.session), hPerforms, fun hOther => ?_, ?_⟩
  · obtain ⟨step?, hSteps⟩ := Call.steps_of_ne hOther e.session
    have hSilent := c.silent e.session
    rw [hSteps] at hPerforms hSilent ⊢
    cases step? with
    | none =>
        cases hPerforms
        exact ⟨rfl, rfl⟩
    | some step =>
        have hOwn : (some step).toList.flatMap Step.events = step.events := List.flatMap_singleton ..
        rw [hOwn]
        have first := hPerforms.single
        have hStep := hSilent step List.mem_cons_self
        exact ⟨first.announced hStep ▸ first.fired, hStep⟩
  · rintro raw now rfl
    have first := (delivers_of_perform h).fired
    rw [first, List.head?_append, (e.session.events_dispatch raw now).2]
    rfl

/-- A listener that asks for a line and panics, and then for another one and fails. -/
theorem outbound_of_panic :
    let react : Event → Network → Unit → Reaction Unit := fun event _ _ =>
      match event.sent? with
      | some "VERSION" => ⟨.panicked, ["TIME"], ()⟩
      | some "TIME" => ⟨.failed, ["INFO"], ()⟩
      | _ => ⟨.done, [], ()⟩
    let e : Engine Unit :=
      ⟨Session.new {} fun _ => .standard, (Listeners.empty.subscribeAll react).2, (), ["NAMES"]⟩
    ∃ t, e.call 3 (.sendLine "VERSION") = some t ∧ t.announced = ["VERSION", "TIME", "INFO"] ∧
      t.engine.outbound = ["NAMES"] ++ t.announced := by
  intro react e
  have h : e.call 3 (.sendLine "VERSION") = some _ := rfl
  exact ⟨_, h, rfl, (outbound_of_call h).1⟩

end Engine

end Irc
