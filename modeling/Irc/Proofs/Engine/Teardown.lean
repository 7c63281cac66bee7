import Irc.Proofs.Engine.Ending
import Irc.Proofs.Network.Blank
/-! The end of a connection is complete, is told once and is final. Listeners are told of it when
nothing is known of the network any more, and whatever is asked of the connection later on, it does
not begin again. -/
namespace Irc

/-- Listeners that come to an end of asking for lines, whatever they are told of. -/
def Listeners.Settle {μ : Type} (l : Listeners μ) : Prop :=
  ∀ (e : Engine μ) (events : List Event), e.listeners = l →
    ∃ fuel t, Engine.fireAll fuel e events = some t

namespace Engine

variable {μ : Type} {fuel : Nat} {e u : Engine μ} {t : Turn μ}

/-- All that listeners do in a call. They are told of its events one after the other, each with a
view of the network; what they remember comes of that, and the lines that they ask for are queued
after those of the call. -/
structure Shows (e : Engine μ) (lines : List String) (views : List (Event × Network))
    (t : Turn μ) : Prop where
  fired : t.fired = views.map Prod.fst
  memory : t.engine.memory = Listeners.left e.memory (e.listeners.reactionsTo views e.memory)
  outbound : t.engine.outbound =
    e.outbound ++ lines ++ (e.listeners.reactionsTo views e.memory).flatMap Reaction.lines

/-- What listeners remember in the end is what they have made of the events that were fired. -/
theorem memory_fireAll {events : List Event} (h : fireAll fuel e events = some t) :
    t.engine.memory =
      Listeners.left e.memory (e.listeners.reactions e.network t.fired e.memory) := by
  induction fuel generalizing e events t with
  | zero =>
      cases events with
      | nil =>
          cases h
          rfl
      | cons event rest => cases h
  | succ fuel ih =>
      cases events with
      | nil =>
          cases h
          rfl
      | cons event rest =>
          obtain ⟨u, hRest, rfl⟩ := Option.map_eq_some_iff.mp h
          obtain ⟨_, hMemory⟩ :=
            Listeners.tell_eq event e.network (e.listeners.recipients event e.network) e.memory
          have hAfter := ih hRest
          show u.engine.memory =
            Listeners.left e.memory (e.listeners.reactions e.network (event :: u.fired) e.memory)
          rw [Listeners.reactions, Listeners.left_append, ← hMemory]
          exact hAfter

/-- All listeners of a step see the network that the step leads to. -/
theorem shows_of_perform {step : Step} (h : e.perform fuel step = some t) :
    e.Shows step.lines (t.fired.map (·, step.session.network)) t where
  fired := by simp [Function.comp_def]
  memory := by
    rw [Listeners.reactionsTo_map]
    exact memory_fireAll h
  outbound := by
    rw [Listeners.reactionsTo_map, (delivers_of_perform h).outbound, List.append_assoc]
    rfl

/-- What is shown in two calls one after the other. -/
theorem Shows.append {lines : List String} {views later : List (Event × Network)} {t' : Turn μ}
    (first : e.Shows lines views t) (next : t.engine.Shows [] later t')
    (hListeners : t.engine.listeners = e.listeners) :
    e.Shows lines (views ++ later) ⟨t.fired ++ t'.fired, t'.engine⟩ where
  fired := by rw [first.fired, next.fired, List.map_append]
  memory := by
    rw [next.memory, first.memory, hListeners, Listeners.reactionsTo_append, Listeners.left_append]
  outbound := by
    rw [next.outbound, first.outbound, first.memory, hListeners, Listeners.reactionsTo_append]
    simp

/-- Firing an event comes to an end if firing the rest does, and then the lines that are asked for
by those who are told of it. -/
theorem exists_fireAll_cons {event : Event} {rest : List Event}
    (h : ∃ fuel t, fireAll fuel (e.tell event).2 (rest ++ (e.tell event).1.map .dataOut) = some t) :
    ∃ fuel t, fireAll fuel e (event :: rest) = some t := by
  obtain ⟨fuel, t, hRest⟩ := h
  have hFirst : fireAll (fuel + 1) e (event :: rest) =
      (fireAll fuel (e.tell event).2 (rest ++ (e.tell event).1.map .dataOut)).map fun t =>
        { t with fired := event :: t.fired } := rfl
  exact ⟨fuel + 1, _, by rw [hFirst, hRest]; rfl⟩

/-- Listeners that ask for nothing when a line is announced come to an end. -/
theorem settle_of_silent {l : Listeners μ}
    (h : ∀ line network memory, (l.fire (.dataOut line) network memory).lines = []) :
    l.Settle := by
  have hLines : ∀ (lines : List String) (e : Engine μ), e.listeners = l →
      ∃ fuel t, fireAll fuel e (lines.map .dataOut) = some t := by
    intro lines
    induction lines with
    | nil => exact fun e _ => ⟨0, ⟨[], e⟩, rfl⟩
    | cons line rest ih =>
        intro e hListeners
        have hNothing : (e.tell (.dataOut line)).1 = [] := by
          rw [← h line e.network e.memory, ← hListeners]
          rfl
        apply exists_fireAll_cons
        rw [hNothing, List.map_nil, List.append_nil]
        exact ih (e.tell (.dataOut line)).2 hListeners
  -- whatever is asked for on the way joins the announcements at the end
  have hAll : ∀ (events : List Event) (lines : List String) (e : Engine μ), e.listeners = l →
      ∃ fuel t, fireAll fuel e (events ++ lines.map .dataOut) = some t := by
    intro events
    induction events with
    | nil => exact hLines
    | cons event rest ih =>
        intro lines e hListeners
        rw [List.cons_append]
        apply exists_fireAll_cons
        rw [List.append_assoc, ← List.map_append]
        exact ih (lines ++ (e.tell event).1) (e.tell event).2 hListeners
  intro e events hListeners
  simpa using hAll events [] e hListeners

/-- Where listeners come to rest, so does every step. -/
theorem exists_perform_of_settle (h : e.listeners.Settle) (step : Step) :
    ∃ fuel t, e.perform fuel step = some t := h _ _ rfl

/-- The ways in which a connection is ended: by us, or by the transport. -/
inductive Exit
  | disconnect (reason : String)
  | lost (reason : Option String)

namespace Exit

def take (fuel : Nat) (e : Engine μ) : Exit → Option (Turn μ)
  | disconnect reason => e.disconnect fuel reason
  | lost reason => e.connectionLost fuel reason

def reason : Exit → Option String
  | disconnect reason => some reason
  | lost reason => reason

/-- What is said to the server: a leave-taking, if it is we who end the connection and the transport
is open. -/
def farewell (phase : Phase) : Exit → List String
  | disconnect reason =>
    if phase = .registering ∨ phase = .connected then [Session.leaveTaking reason] else []
  | lost _ => []

end Exit

/-- How a connection ends. Nothing is known afterwards; apart from the announcements of lines, three
events tell of the end, each with nothing known any more; and a leave-taking is all that the call
itself queues. -/
structure Dissolves (e : Engine μ) (farewell : List String) (reason : Option String)
    (t : Turn μ) : Prop where
  isOver : t.engine.session.Over
  ended : t.engine.session.lifecycle.ended = true
  told : t.fired.filter (·.sent?.isNone) =
    [.phaseChanged e.phase .closing, .phaseChanged .closing .disconnected, .closed reason]
  shown : ∃ views, e.Shows farewell views t ∧ ∀ view ∈ views, view.1.sent? = none → view.2.Blank

/-- Of news and announcements, the announcements are those with a line. -/
theorem filter_announcements (lines : List String) :
    (lines.map Event.dataOut).filter (·.sent?.isNone) = [] := by
  simp [List.filter_eq_nil_iff, Event.sent?]

/-- What is said to the server depends on the phase alone. -/
theorem farewell_of_open (h : e.session.Open) (reason : String) :
    e.session.farewell reason = (Exit.disconnect reason).farewell e.phase := by
  rcases h with hPhase | hPhase | hPhase <;>
    simp [Session.farewell, Exit.farewell, phase, hPhase, Session.leaveTaking]

/-- When the transport is lost, nothing is said to the server any more. -/
theorem dissolves_of_lost {reason : Option String} (hOpen : e.session.Open)
    (h : e.connectionLost fuel reason = some t) : e.Dissolves [] reason t := by
  have hTorn := Session.teardown_of_open hOpen reason
  rw [connectionLost, hTorn] at h
  have hDelivers := delivers_of_perform h
  refine ⟨?_, ?_, ?_, _, shows_of_perform h, ?_⟩
  · rw [hDelivers.session]
    exact ⟨rfl, ⟨rfl, rfl⟩, rfl, rfl⟩
  · rw [hDelivers.session]
    rfl
  · rw [hDelivers.fired, List.filter_append, filter_announcements]
    rfl
  · intro view hView _
    obtain ⟨event, _, rfl⟩ := List.mem_map.mp hView
    exact e.network.blank_clear

/-- When we leave, the line of leave is queued first, if the server has been spoken to. -/
theorem dissolves_of_disconnect {reason : String} (hOpen : e.session.Open)
    (h : e.disconnect fuel reason = some t) :
    e.Dissolves ((Exit.disconnect reason).farewell e.phase) (some reason) t := by
  obtain ⟨t₁, hFirst, hThen⟩ := Option.bind_eq_some_iff.mp h
  obtain ⟨t₂, hNext, rfl⟩ := Option.map_eq_some_iff.mp hThen
  have first := delivers_of_perform hFirst
  have hSession : t₁.engine.session = e.session := first.session
  have hStill : t₁.engine.session.Open := by rwa [hSession]
  have next := dissolves_of_lost hStill hNext
  obtain ⟨later, hLater, hBlank⟩ := next.shown
  have hShows := (shows_of_perform hFirst).append hLater first.listeners
  have hAnnounced : t₁.fired.filter (·.sent?.isNone) = [] := by
    rw [first.fired]
    exact filter_announcements _
  rw [← farewell_of_open hOpen]
  refine ⟨next.isOver, next.ended, ?_, _, hShows, ?_⟩
  · rw [List.filter_append, hAnnounced, next.told, phase, hSession]
    rfl
  · intro view hView hNone
    rcases List.mem_append.mp hView with hIn | hIn
    · -- before the end, only lines are announced
      obtain ⟨event, hEvent, rfl⟩ := List.mem_map.mp hIn
      have hOne : event ∈ t₁.fired.filter (·.sent?.isNone) :=
        List.mem_filter.mpr ⟨hEvent, Option.isNone_iff_eq_none.mpr hNone⟩
      rw [hAnnounced] at hOne
      cases hOne
    · exact hBlank view hIn hNone

/-- The connection is over, and nothing more comes of what is asked of it. -/
structure Rests (e : Engine μ) : Prop where
  phase : e.phase = .disconnected
  exit : ∀ fuel (x : Exit), x.take fuel e = some ⟨[], e⟩
  connecting : ∀ fuel, e.connecting fuel = .error (.transition ⟨.disconnected, .connecting⟩)
  connected : ∀ fuel, e.connected fuel = .error (.transition ⟨.disconnected, .registering⟩)
  pollPing : ∀ fuel now, e.pollPing fuel now = (.idle, some ⟨[], e⟩)

/-- What an engine may become: by any calls, and by whatever listeners and other parts of the
program do to the rest of it. -/
inductive Later : Engine μ → Engine μ → Prop
  | refl (e : Engine μ) : Later e e
  | call {e u : Engine μ} {fuel : Nat} {c : Call} {t : Turn μ} (before : Later e u)
      (h : u.call fuel c = some t) : Later e t.engine
  | connecting {e u : Engine μ} {fuel : Nat} {t : Turn μ} (before : Later e u)
      (h : u.connecting fuel = .ok (some t)) : Later e t.engine
  | aside {e u : Engine μ} (before : Later e u) (network : Network) (listeners : Listeners μ)
      (memory : μ) (outbound : List String) :
      Later e ⟨u.session.withNetwork network, listeners, memory, outbound⟩

theorem perform_stay (fuel : Nat) (e : Engine μ) :
    e.perform fuel e.session.stay = some ⟨[], e⟩ := by
  obtain ⟨session, listeners, memory, outbound⟩ := e
  cases fuel <;> simp [perform, Session.stay, enqueue, fireAll]

/-- A connection that has ended refuses to begin again, and the other requests do nothing. -/
theorem rests_of_ended (h : e.session.lifecycle = ⟨.disconnected, true⟩) : e.Rests := by
  have hPhase : e.session.phase = .disconnected := congrArg Lifecycle.phase h
  have hTorn : ∀ reason, e.session.teardown reason = e.session.stay := by
    intro reason
    rw [Session.teardown, hPhase]
  have hLost : ∀ fuel reason, e.connectionLost fuel reason = some ⟨[], e⟩ := by
    intro fuel reason
    rw [connectionLost, hTorn, perform_stay]
  refine ⟨hPhase, ?_, ?_, ?_, ?_⟩
  · rintro fuel (reason | reason)
    · have hFarewell : e.session.sends (e.session.farewell reason) = e.session.stay := by
        rw [Session.farewell, hPhase]
        rfl
      show e.disconnect fuel reason = _
      rw [disconnect, hFarewell, perform_stay, Option.bind_some, Turn.andThen, hLost]
      rfl
    · exact hLost fuel reason
  · intro fuel
    rw [Engine.connecting, Session.connecting, h]
    rfl
  · intro fuel
    rw [Engine.connected, Session.connected, h]
    rfl
  · intro fuel now
    have hPoll : e.session.pollPing now = (.idle, e.session.stay) := by
      rw [Session.pollPing, hPhase]
      rfl
    rw [pollPing, hPoll]
    exact congrArg _ (perform_stay fuel e)

/-- No call takes an ended connection out of its end. -/
theorem lifecycle_call {c : Call} (hEnded : u.session.lifecycle = ⟨.disconnected, true⟩)
    (h : u.call fuel c = some t) : t.engine.session.lifecycle = ⟨.disconnected, true⟩ := by
  have hRests := rests_of_ended hEnded
  cases c with
  | dispatch raw now =>
      rw [(delivers_of_perform h).session]
      rcases u.session.lifecycle_dispatch raw now with hSame | ⟨_, _, _, hPhase, _⟩
      · exact hSame.trans hEnded
      · cases (congrArg Lifecycle.phase hEnded).symm.trans hPhase
  | sendLine line =>
      rw [(delivers_of_perform h).session]
      exact hEnded
  | connected =>
      rw [call, hRests.connected] at h
      cases h
      exact hEnded
  | pollPing now =>
      rw [call, hRests.pollPing] at h
      cases h
      exact hEnded
  | requestListModes channel =>
      rw [(delivers_of_perform h).session]
      exact hEnded
  | disconnect reason =>
      cases (hRests.exit fuel (.disconnect reason)).symm.trans h
      exact hEnded
  | connectionLost reason =>
      cases (hRests.exit fuel (.lost reason)).symm.trans h
      exact hEnded

/-- Whatever happens to an ended connection later, by calls or otherwise, it stays ended. -/
theorem Later.lifecycle (h : Later e u) (hEnded : e.session.lifecycle = ⟨.disconnected, true⟩) :
    u.session.lifecycle = ⟨.disconnected, true⟩ := by
  induction h with
  | refl => exact hEnded
  | call _ hCall ih => exact lifecycle_call ih hCall
  | connecting _ hConnecting ih =>
      rw [(rests_of_ended ih).connecting] at hConnecting
      cases hConnecting
  | aside _ network listeners memory outbound ih => exact ih

/-- If listeners come to an end of asking for lines, a connection can be ended. -/
theorem exists_exit_of_settle (h : e.listeners.Settle) (x : Exit) :
    ∃ fuel t, x.take fuel e = some t := by
  cases x with
  | lost reason => exact exists_perform_of_settle h _
  | disconnect reason =>
      obtain ⟨few, t₁, hFirst⟩ :=
        exists_perform_of_settle h (e.session.sends (e.session.farewell reason))
      have hStill : t₁.engine.listeners.Settle := (delivers_of_perform hFirst).listeners ▸ h
      obtain ⟨more, t₂, hNext⟩ :=
        exists_perform_of_settle hStill (t₁.engine.session.teardown (some reason))
      have hMore : e.perform (few + more) (e.session.sends (e.session.farewell reason)) = some t₁ :=
        fireAll_mono hFirst (Nat.le_add_right few more)
      have hThen : t₁.engine.connectionLost (few + more) (some reason) = some t₂ :=
        fireAll_mono hNext (Nat.le_add_left more few)
      refine ⟨few + more, ⟨t₁.fired ++ t₂.fired, t₂.engine⟩, ?_⟩
      simp only [Exit.take, disconnect, hMore, Option.bind_some, Turn.andThen, hThen,
        Option.map_some]

/-- A connection that has begun, whatever is known and whoever listens, is ended completely by
either call, and for good: whatever is done later on, it cannot be ended again, begins no more and
sends no PING. The call comes to an end if the listeners come to an end of asking for lines. -/
theorem dissolves_of_exit (hOpen : e.session.Open) (x : Exit) :
    (∀ fuel t, x.take fuel e = some t →
      e.Dissolves (x.farewell e.phase) x.reason t ∧ ∀ later, Later t.engine later → later.Rests) ∧
    (e.listeners.Settle → ∃ fuel t, x.take fuel e = some t) := by
  refine ⟨fun fuel t h => ?_, fun hSettle => exists_exit_of_settle hSettle x⟩
  have hDissolves : e.Dissolves (x.farewell e.phase) x.reason t := by
    cases x with
    | disconnect reason => exact dissolves_of_disconnect hOpen h
    | lost reason => exact dissolves_of_lost hOpen h
  have hEnded : t.engine.session.lifecycle = ⟨.disconnected, true⟩ := by
    have hPhase : t.engine.session.lifecycle.phase = .disconnected := hDissolves.isOver.phase
    rw [← hPhase, ← hDissolves.ended]
  exact ⟨hDissolves, fun later hLater => rests_of_ended (hLater.lifecycle hEnded)⟩

/-- A listener that asks for a line when the connection is over, and panics: the line is queued, and
the connection stays ended. -/
theorem dissolves_of_leave :
    let react : Event → Network → Unit → Reaction Unit := fun event _ _ =>
      match event with
      | .closed _ => ⟨.panicked, ["TIME"], ()⟩
      | _ => ⟨.done, [], ()⟩
    let e : Engine Unit :=
      ⟨Session.new {} fun _ => .standard, (Listeners.empty.subscribeAll react).2, (), []⟩
    ∃ u v t, e.connecting 9 = .ok (some u) ∧ u.engine.connected 9 = .ok (some v) ∧
      v.engine.takeOutbound.2.disconnect 9 "bye" = some t ∧
      t.engine.outbound = ["QUIT :bye", "TIME"] ∧
      v.engine.takeOutbound.2.Dissolves ["QUIT :bye"] (some "bye") t ∧
      ∀ later, Later t.engine later → later.Rests := by
  intro react e
  have hLast : ∀ (v : Engine Unit) (t : Turn Unit), v.phase = .registering →
      v.disconnect 9 "bye" = some t → v.Dissolves ["QUIT :bye"] (some "bye") t ∧
        ∀ later, Later t.engine later → later.Rests := by
    intro v t hPhase hLeave
    have hOpen : v.session.Open := .inr (.inl hPhase)
    have hFarewell : (Exit.disconnect "bye").farewell .registering = ["QUIT :bye"] := rfl
    rw [← hFarewell, ← hPhase]
    exact (dissolves_of_exit hOpen (.disconnect "bye")).1 9 t hLeave
  exact ⟨_, _, _, rfl, rfl, rfl, rfl, hLast _ _ rfl rfl⟩

end Engine

end Irc
