import Irc.Proofs.Engine.Outbound
import Irc.Proofs.Session.Checked
/-! Reading without listeners: whatever text the server sends, it is dealt with to the end, and next
to nothing can come of it but news of the network. -/
namespace Irc

namespace Session

variable {s : Session} {line : Line} {now : Moment}

/-- Why a session may send lines when it has read one: the server wants to hear of us, our nickname
is taken, or we have come into a channel whose lists are wanted. -/
inductive Answered (s : Session) (line : Line) (now : Moment) (after : Network) :
    List String → Prop
  | nothing : Answered s line now after []
  | ping (command : line.command = "PING") :
      Answered s line now after ["PONG :" ++ line.trailing]
  | nickTaken (nick : String) (code : line.numeric? = some 433 ∨ line.numeric? = some 437)
      (phase : s.phase ≠ .connected) :
      Answered s line now after ["NICK " ++ nick]
  | ownJoin {channel : String} (command : line.command = "JOIN")
      (wanted : s.config.requestListModesOnJoin = true)
      (own : ((s.noticing now).settledFor line).ownJoin? line = some channel) :
      Answered s line now after (listRequests s.config after channel)

/-- A numeric is answered only if it refuses our nickname during registration. -/
theorem answered_numericAnswer {code : Nat} (h : line.numeric? = some code) (after : Network) :
    s.Answered line now after (((s.noticing now).settledFor line).numericAnswer line code) := by
  unfold numericAnswer
  split
  next hTaken =>
    have hCode : line.numeric? = some 433 ∨ line.numeric? = some 437 := by
      rw [h]
      exact hTaken.2.imp (congrArg some) (congrArg some)
    unfold renewal
    split
    · exact .nothing
    next hPhase =>
      have hLife := (s.noticing now).lifecycle_settledFor line
      exact .nickTaken _ hCode fun hIs => hPhase ((congrArg Lifecycle.phase hLife).trans hIs)
  · exact .nothing

/-- A word is answered only if it is a PING or our own JOIN. -/
theorem answered_commandAnswer (after : Session) :
    s.Answered line now after.network
      (((s.noticing now).settledFor line).commandAnswer line after) := by
  unfold commandAnswer
  rw [config_settledFor]
  split
  next hPing => exact .ping hPing
  split
  next hJoin =>
    cases hOwn : ((s.noticing now).settledFor line).ownJoin? line with
    | none => exact .nothing
    | some channel =>
        rw [Option.elim_some]
        split
        next hWanted => exact .ownJoin hJoin hWanted hOwn
        · exact .nothing
  · exact .nothing

/-- Every answer to a line is to a PING, to a refused nickname during registration, or to our own
JOIN. -/
theorem answered_answer (after : Session) :
    s.Answered line now after.network (((s.noticing now).settledFor line).answer line after) := by
  rw [answer]
  cases hNumeric : line.numeric? with
  | some code => exact answered_numericAnswer hNumeric after.network
  | none => exact answered_commandAnswer after

end Session

namespace Engine

variable {μ : Type} {e : Engine μ}

/-- Where nobody listens, an event does nothing. -/
theorem tell_of_isEmpty (h : e.listeners.isEmpty = true) (event : Event) :
    e.tell event = ([], e) := by
  obtain ⟨session, ⟨nextId, generic, specific⟩, memory, outbound⟩ := e
  have hSize : generic.length + specific.length = 0 := beq_iff_eq.mp h
  obtain ⟨hGeneric, hSpecific⟩ := Nat.add_eq_zero_iff.mp hSize
  cases List.length_eq_zero_iff.mp hGeneric
  cases List.length_eq_zero_iff.mp hSpecific
  simp [tell, Listeners.fire, Listeners.recipients, Listeners.tell, enqueue]

/-- Without listeners, firing takes one turn for each event and changes nothing. -/
theorem fireAll_of_isEmpty (h : e.listeners.isEmpty = true) (events : List Event) :
    fireAll events.length e events = some ⟨events, e⟩ := by
  induction events with
  | nil => rfl
  | cons event rest ih =>
      rw [List.length_cons, fireAll, tell_of_isEmpty h]
      simp only [List.map_nil, List.append_nil, ih]
      rfl

/-- Without listeners, a step ends, with its own events and lines and no others. -/
theorem perform_of_isEmpty (h : e.listeners.isEmpty = true) (step : Step) :
    ∃ t, (∃ fuel, e.perform fuel step = some t) ∧
      t.fired = step.events ++ step.lines.map .dataOut ∧
      t.engine = { e with session := step.session, outbound := e.outbound ++ step.lines } := by
  have hQueued : (({ e with session := step.session } : Engine μ).enqueue step.lines).listeners.isEmpty =
      true := h
  let events : List Event := step.events ++ step.lines.map .dataOut
  exact ⟨_, ⟨events.length, fireAll_of_isEmpty hQueued events⟩, rfl, rfl⟩

/-- What comes of a text from the server. One that is no line is told of, and that is all. A line
leaves the life of the connection as it is, but for a greeting while we register; and few lines are
answered. -/
structure Reads (e : Engine μ) (raw : String) (now : Moment) (t : Turn μ) : Prop where
  listeners : t.engine.listeners = e.listeners
  outbound : t.engine.outbound = e.outbound ++ t.announced
  unreadable : ∀ error, Line.read (Session.bare raw) = .error error →
    t = ⟨[.dataIn (Session.bare raw), .malformed (Session.bare raw) error],
      { e with session := e.session.noticing now }⟩
  lifecycle : t.engine.session.lifecycle = e.session.lifecycle ∨
    ∃ line, Line.read (Session.bare raw) = .ok line ∧ line.numeric? = some 1 ∧
      e.phase = .registering ∧
      t.engine.session.lifecycle = { e.session.lifecycle with phase := .connected }
  announced : ∀ line, Line.read (Session.bare raw) = .ok line →
    t.announced = ((e.session.noticing now).settledFor line).answer line t.engine.session
  answered : ∀ line, Line.read (Session.bare raw) = .ok line →
    e.session.Answered line now t.engine.network t.announced

/-- Every text is read to the end where nobody listens. -/
theorem reads_of_isEmpty (h : e.listeners.isEmpty = true) (raw : String) (now : Moment) :
    ∃ t, (∃ fuel, e.dispatch fuel raw now = some t) ∧ e.Reads raw now t := by
  obtain ⟨t, hEnds, hFired, hEngine⟩ := perform_of_isEmpty h (e.session.dispatch raw now)
  have hSession : t.engine.session = (e.session.dispatch raw now).session := by rw [hEngine]
  have hAnnounced : t.announced = (e.session.dispatch raw now).lines :=
    Turn.announced_eq hFired (e.session.events_dispatch raw now).1
  refine ⟨t, hEnds, ?_, ?_, ?_, ?_, ?_, ?_⟩
  · rw [hEngine]
  · rw [hEngine, hAnnounced]
  · intro error hRead
    rw [Session.dispatch_of_unreadable now hRead] at hFired hEngine
    obtain ⟨fired, engine⟩ := t
    cases hFired
    cases hEngine
    rw [List.append_nil]
    rfl
  · rw [hSession]
    exact e.session.lifecycle_dispatch raw now
  · intro line hRead
    rw [hAnnounced, hSession]
    exact (Session.answers_dispatch now hRead).lines_eq
  · intro line hRead
    rw [hAnnounced, (Session.answers_dispatch now hRead).lines_eq, network, hSession]
    exact e.session.answered_answer (e.session.dispatch raw now).session

/-- What any text from the server does where nobody listens, in whatever state. Each operation on
its way has operands that it takes, and so has each splitting of a source or a name; the text is
dealt with to the end; and nothing comes of it but what `Reads` says. -/
theorem dispatch_of_isEmpty (h : e.listeners.isEmpty = true) (raw : String) (now : Moment) :
    e.session.dispatch? raw now = some (e.session.dispatch raw now) ∧
      (∀ text, Hostmask.splitParts? text = some (Hostmask.splitParts text)) ∧
      ∃ t, (∃ fuel, e.dispatch fuel raw now = some t) ∧ e.Reads raw now t :=
  ⟨e.session.dispatch?_eq raw now, Hostmask.splitParts?_eq, reads_of_isEmpty h raw now⟩

/-- While we register, the server wants to hear of us. -/
theorem dispatch_of_ping :
    ∃ (e : Engine Unit) (t u : Turn Unit), Engine.new {} (fun _ => .standard) () = .ok e ∧
      e.connecting 1 = .ok (some t) ∧ t.engine.connected 4 = .ok (some u) ∧
      ∃ v, (∃ fuel, u.engine.dispatch fuel "PING :here" ⟨0, 0⟩ = some v) ∧
        v.engine.outbound = u.engine.outbound ++ ["PONG :here"] := by
  have hPing : ∀ e : Engine Unit, e.listeners.isEmpty = true →
      ∃ v, (∃ fuel, e.dispatch fuel "PING :here" ⟨0, 0⟩ = some v) ∧
        v.engine.outbound = e.outbound ++ ["PONG :here"] := by
    intro e h
    obtain ⟨v, hEnds, hReads⟩ := (dispatch_of_isEmpty h "PING :here" ⟨0, 0⟩).2.2
    have hAnnounced : v.announced = ["PONG :here"] := hReads.announced _ rfl
    have hOutbound := hReads.outbound
    rw [hAnnounced] at hOutbound
    exact ⟨v, hEnds, hOutbound⟩
  exact ⟨_, _, _, rfl, rfl, rfl, hPing _ rfl⟩

def readAll (fuel : Nat) (e : Engine μ) : List (String × Moment) → Option (Turn μ)
  | [] => some ⟨[], e⟩
  | (raw, now) :: rest =>
    (e.dispatch fuel raw now).bind fun t => t.andThen fun e => e.readAll fuel rest

/-- More fuel than is needed changes nothing. -/
theorem readAll_mono {fuel more : Nat} {texts : List (String × Moment)} {t : Turn μ}
    (h : e.readAll fuel texts = some t) (le : fuel ≤ more) : e.readAll more texts = some t := by
  induction texts generalizing e t with
  | nil => exact h
  | cons text rest ih =>
      obtain ⟨first, hFirst, hThen⟩ := Option.bind_eq_some_iff.mp h
      obtain ⟨next, hNext, rfl⟩ := Option.map_eq_some_iff.mp hThen
      exact Option.bind_eq_some_iff.mpr
        ⟨first, fireAll_mono hFirst le, Option.map_eq_some_iff.mpr ⟨next, ih hNext, rfl⟩⟩

end Engine

end Irc
