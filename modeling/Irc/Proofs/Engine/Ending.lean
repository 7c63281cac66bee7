import Irc.Proofs.Engine.Outbound
import Irc.Proofs.Session.Dealings
/-! The end of a connection. As long as one runs, we register or have registered, and no call tells
that it is over. The call that ends it tells so once, and nothing is known of the network after
it. -/
namespace Irc

namespace Event

def isClosing : Event → Bool
  | closed _ => true
  | _ => false

/-- How often events tell that the connection is over. -/
def closings (events : List Event) : Nat := events.countP isClosing

theorem closings_append (events later : List Event) :
    closings (events ++ later) = closings events + closings later := List.countP_append

theorem closings_dataOut (lines : List String) : closings (lines.map dataOut) = 0 := by
  simp [closings, List.countP_eq_zero, isClosing]

/-- What a line makes us tell is never that the connection is over. -/
theorem closings_of_isOfLine {events : List Event} (h : events.all isOfLine = true) :
    closings events = 0 := by
  refine List.countP_eq_zero.mpr fun event hIn => ?_
  have hOfLine := List.all_eq_true.mp h event hIn
  cases event <;> first | exact Bool.false_ne_true | cases hOfLine

end Event

namespace Session

variable {s : Session}

/-- The transport is open. -/
def Underway (s : Session) : Prop := s.phase = .registering ∨ s.phase = .connected

/-- The connection has begun and is not over. -/
def Open (s : Session) : Prop := s.phase = .connecting ∨ s.Underway

/-- The connection is over, and with it all that was known of users and channels. -/
structure Over (s : Session) : Prop where
  phase : s.phase = .disconnected
  users : s.network.roster.clients = SortedMap.empty ∧ s.network.roster.byNick = SortedMap.empty
  channels : s.network.channels.channels = SortedMap.empty
  own : s.network.own = none

/-- How a session has to be, by whether its connection is over. -/
def Suits (s : Session) : Bool → Prop
  | false => s.Underway
  | true => s.Over

/-- No text from the server closes the transport. -/
theorem underway_dispatch (h : s.Underway) (raw : String) (now : Moment) :
    (s.dispatch raw now).session.Underway := by
  rcases s.phase_dispatch raw now with hSame | ⟨_, hGreeted⟩
  · rwa [Underway, hSame]
  · exact .inr hGreeted

/-- A text never makes us tell of the end: that is for the calls that bring it about. -/
theorem closings_dispatch (raw : String) (now : Moment) :
    Event.closings (s.dispatch raw now).events = 0 := by
  cases hLine : Picture.lineOf? raw with
  | none =>
      obtain ⟨error, hStep⟩ := dispatch_of_lineOf?_eq_none s now hLine
      rw [hStep]
      rfl
  | some line =>
      let settled := (s.noticing now).settledFor line
      have hSettlement : Event.closings (s.settlement line) = 0 := by
        unfold settlement
        split <;> rfl
      have hHandled := Event.closings_of_isOfLine (settled.does_handled line now).events
      rw [dispatch_eq_handled s now hLine]
      show Event.closings (.dataIn (bare raw) :: s.settlement line ++
        (settled.handled line now).events) = 0
      rw [Event.closings_append, hHandled]
      exact hSettlement

/-- A poll leaves the connection going; it is for the caller to act on its answer. -/
theorem underway_pollPing (h : s.Underway) (now : Nat) : (s.pollPing now).2.session.Underway := by
  have hActive : s.phase.isActive = true := by
    rcases h with hPhase | hPhase <;> rw [hPhase] <;> rfl
  rw [(pollPing_of_active now hActive).2.2]
  exact h

theorem closings_pollPing (now : Nat) : Event.closings (s.pollPing now).2.events = 0 := by
  unfold pollPing
  split
  · obtain ⟨action, ping⟩ := s.ping.poll now
    cases action <;> rfl
  · rfl

/-- When the transport is open the connection is underway. -/
theorem underway_connected {step : Step} (h : s.connected = .ok step) :
    step.session.Underway ∧ Event.closings step.events = 0 := by
  unfold connected at h
  cases hMove : s.lifecycle.move .registering with
  | error cause =>
      rw [hMove] at h
      cases h
  | ok lifecycle =>
      rw [hMove] at h
      cases h
      unfold Lifecycle.move at hMove
      split at hMove
      · cases hMove
        exact ⟨.inl rfl, rfl⟩
      · cases hMove

/-- Both moves that end a connection are allowed once it has begun. -/
theorem closeMoves_of_open {l : Lifecycle}
    (h : l.phase = .connecting ∨ l.phase = .registering ∨ l.phase = .connected) :
    closeMoves l [.closing, .disconnected] =
      (⟨.disconnected, true⟩,
        [.phaseChanged l.phase .closing, .phaseChanged .closing .disconnected]) := by
  obtain ⟨current, ended⟩ := l
  rcases h with rfl | rfl | rfl <;> cases ended <;> rfl

/-- Tearing down an open connection does all at once: it is over, nothing is known any more, and
this is told in order. -/
theorem teardown_of_open (h : s.Open) (reason : Option String) :
    s.teardown reason =
      { s with lifecycle := ⟨.disconnected, true⟩, network := s.network.clear }.tells
        [.phaseChanged s.phase .closing, .phaseChanged .closing .disconnected, .closed reason] := by
  unfold teardown
  split
  next hPhase => rcases h with hBegun | hBegun | hBegun <;> cases hBegun.symm.trans hPhase
  next =>
    simp only [closeMoves_of_open h]
    rfl

/-- After it the connection is over, and that has been told once. -/
theorem over_teardown (h : s.Open) (reason : Option String) :
    (s.teardown reason).session.Over ∧ Event.closings (s.teardown reason).events = 1 := by
  rw [teardown_of_open h]
  exact ⟨⟨rfl, ⟨rfl, rfl⟩, rfl, rfl⟩, rfl⟩

def leaveTaking (reason : String) : String := if reason = "" then "QUIT" else "QUIT :" ++ reason

/-- Where a server has been spoken to, it gets one line of leave. -/
theorem farewell_of_underway (h : s.Underway) (reason : String) :
    s.farewell reason = [leaveTaking reason] := by
  unfold farewell
  rcases h with hPhase | hPhase <;> rw [hPhase] <;> rfl

end Session

namespace Engine

variable {μ : Type} {fuel : Nat} {e : Engine μ} {t u : Turn μ}

/-- The lines that a call queues are those that it announces, and it tells so many times that the
connection is over. -/
structure Accounts (e : Engine μ) (closings : Nat) (t : Turn μ) : Prop where
  outbound : t.engine.outbound = e.outbound ++ t.announced
  closings_eq : Event.closings t.fired = closings

/-- What a step delivers is accounted for: its lines and those asked for, and its own news of an
end. -/
theorem Delivers.accounts {step : Step} (h : e.Delivers step t)
    (hSilent : step.events.filterMap Event.sent? = []) :
    e.Accounts (Event.closings step.events) t := by
  refine ⟨?_, ?_⟩
  · rw [h.outbound, h.announced hSilent]
  · rw [h.fired, Event.closings_append, Event.closings_dataOut, Nat.add_zero]

/-- Accounts of two calls add up. -/
theorem Accounts.append {n m : Nat} (first : e.Accounts n t) (next : t.engine.Accounts m u) :
    e.Accounts (n + m) ⟨t.fired ++ u.fired, u.engine⟩ where
  outbound := by rw [next.outbound, first.outbound, Turn.announced_append, List.append_assoc]
  closings_eq := by rw [Event.closings_append, first.closings_eq, next.closings_eq]

/-- A call as it has to be, by whether the connection is over after it. -/
structure Leads (e : Engine μ) (ended : Bool) (t : Turn μ) : Prop where
  accounts : e.Accounts ended.toNat t
  suits : t.engine.session.Suits ended

/-- A call after which the connection goes on, and then one that may end it. -/
theorem Leads.append {ended : Bool} (first : e.Leads false t) (next : t.engine.Leads ended u) :
    e.Leads ended ⟨t.fired ++ u.fired, u.engine⟩ where
  accounts := Nat.zero_add ended.toNat ▸ first.accounts.append next.accounts
  suits := next.suits

/-- A call of one step leads where the step does, whatever listeners ask for on the way. -/
theorem leads_of_perform {step : Step} {ended : Bool} (h : e.perform fuel step = some t)
    (hSilent : step.events.filterMap Event.sent? = [])
    (hClosings : Event.closings step.events = ended.toNat) (hSuits : step.session.Suits ended) :
    e.Leads ended t := by
  have hDelivers := delivers_of_perform h
  exact ⟨hClosings ▸ hDelivers.accounts hSilent, hDelivers.session ▸ hSuits⟩

/-- Reading a text goes on with the connection. -/
theorem leads_dispatch {raw : String} {now : Moment} (hUnderway : e.session.Underway)
    (h : e.dispatch fuel raw now = some t) : e.Leads false t :=
  leads_of_perform h (e.session.events_dispatch raw now).1 (Session.closings_dispatch raw now)
    (Session.underway_dispatch hUnderway raw now)

/-- Sending lines goes on with the connection, and they are announced before anything that listeners
ask for. -/
theorem leads_sends {lines : List String} (hUnderway : e.session.Underway)
    (h : e.perform fuel (e.session.sends lines) = some t) :
    e.Leads false t ∧ ∃ more, t.announced = lines ++ more :=
  ⟨leads_of_perform h rfl rfl hUnderway, _, (delivers_of_perform h).announced rfl⟩

/-- A poll of the keepalive goes on with the connection, whatever it answers. -/
theorem leads_pollPing {now : Nat} (hUnderway : e.session.Underway)
    (h : (e.pollPing fuel now).2 = some t) : e.Leads false t :=
  leads_of_perform h (Session.silent_pollPing now) (Session.closings_pollPing now)
    (Session.underway_pollPing hUnderway now)

/-- When the transport is lost the connection is over. -/
theorem leads_connectionLost {reason : Option String} (hUnderway : e.session.Underway)
    (h : e.connectionLost fuel reason = some t) : e.Leads true t := by
  obtain ⟨hOver, hClosings⟩ := Session.over_teardown (.inr hUnderway) reason
  exact leads_of_perform h (Session.silent_teardown reason) hClosings hOver

/-- When we leave, the connection is over, and the line of leave is announced before anything
else. -/
theorem leads_disconnect {reason : String} (hUnderway : e.session.Underway)
    (h : e.disconnect fuel reason = some t) :
    e.Leads true t ∧ ∃ more, t.announced = Session.leaveTaking reason :: more := by
  obtain ⟨t₁, hFirst, hThen⟩ := Option.bind_eq_some_iff.mp h
  obtain ⟨t₂, hNext, rfl⟩ := Option.map_eq_some_iff.mp hThen
  obtain ⟨first, more, hMore⟩ := leads_sends hUnderway hFirst
  refine ⟨first.append (leads_connectionLost first.suits hNext), more ++ t₂.announced, ?_⟩
  rw [Turn.announced_append, hMore, Session.farewell_of_underway hUnderway]
  rfl

theorem accounts_connecting (h : e.connecting fuel = .ok (some t)) : e.Accounts 0 t := by
  unfold connecting attempt Session.connecting at h
  cases hMove : e.session.lifecycle.move .connecting with
  | error cause =>
      rw [hMove] at h
      cases h
  | ok lifecycle =>
      rw [hMove] at h
      exact (delivers_of_perform (Except.ok.inj h)).accounts rfl

/-- Opening the transport sets the connection going. -/
theorem leads_connected (h : e.connected fuel = .ok (some t)) : e.Leads false t := by
  unfold connected attempt at h
  cases hStep : e.session.connected with
  | error cause =>
      rw [hStep] at h
      cases h
  | ok step =>
      rw [hStep] at h
      obtain ⟨hUnderway, hClosings⟩ := Session.underway_connected hStep
      exact leads_of_perform (Except.ok.inj h) (Session.silent_connected hStep) hClosings hUnderway

end Engine

end Irc
