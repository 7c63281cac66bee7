import Irc.Proofs.Session.Dealings
/-! The keepalive of a session that has a transport. Texts and polls take its tracker through a run
of the tracker alone, so what the session does at a poll or at a PONG is told by the past of the
connection. -/
namespace Irc

namespace Session

variable {s : Session}

/-- A text is to the keepalive what its line is: a PONG with its token, or some line. -/
theorem ping_dispatch (s : Session) (raw : String) (now : Moment) :
    (s.dispatch raw now).session.ping =
      (s.ping.receive now.millis ((Picture.lineOf? raw).bind Line.pong?)).2 := by
  cases h : Line.read (bare raw) with
  | error e =>
      have hLine : Picture.lineOf? raw = none := congrArg Except.toOption h
      rw [dispatch_of_unreadable now h, hLine]
      rfl
  | ok line =>
      have hLine : Picture.lineOf? raw = some line := congrArg Except.toOption h
      rw [(answers_dispatch now h).ping_eq, hLine]
      rfl

/-- What happens to a session as long as there is a transport. -/
inductive Occasion
  | text (raw : String) (now : Moment)
  | poll (now : Nat)

namespace Occasion

def take (s : Session) : Occasion → Session
  | text raw now => (s.dispatch raw now).session
  | poll now => (s.pollPing now).2.session

def happening : Occasion → PingTracker.Happening
  | text raw now => .line now.millis ((Picture.lineOf? raw).bind Line.pong?)
  | poll now => .poll now

end Occasion

/-- The session after a number of occasions, the latest first. -/
def after (s : Session) : List Occasion → Session
  | [] => s
  | occasion :: past => occasion.take (s.after past)

/-- No text from the server takes the transport away. -/
theorem isActive_dispatch (raw : String) (now : Moment) (h : s.phase.isActive = true) :
    (s.dispatch raw now).session.phase.isActive = true := by
  rcases s.phase_dispatch raw now with hSame | ⟨_, hGreeted⟩
  · exact (congrArg Phase.isActive hSame).trans h
  · exact congrArg Phase.isActive hGreeted

/-- One occasion keeps the transport and takes the tracker one step. -/
theorem ping_take (occasion : Occasion) (h : s.phase.isActive = true) :
    (occasion.take s).phase.isActive = true ∧
      (occasion.take s).ping = (s.ping.step occasion.happening).2 := by
  cases occasion with
  | text raw now =>
      rw [Occasion.take, ping_dispatch, Occasion.happening, PingTracker.step_line]
      exact ⟨isActive_dispatch raw now h, rfl⟩
  | poll now =>
      rw [Occasion.take, (pollPing_of_active now h).2.2, Occasion.happening,
        PingTracker.step_poll]
      exact ⟨h, rfl⟩

/-- Besides the text, and the announcements that it settles, a PONG tells the lag that the tracker
makes of its token. -/
theorem events_dispatch_pong {raw token : String} {line : Line} (now : Moment)
    (h : Picture.lineOf? raw = some line) (hPong : line.pong? = some token) :
    (s.dispatch raw now).events =
      .dataIn (bare raw) :: s.settlement line ++
        (s.ping.receive now.millis (some token)).1.toList.map Event.pingAnswered := by
  obtain ⟨hCommand, hToken⟩ := Option.ite_none_right_eq_some.mp hPong
  cases hToken
  have hWord : line.numeric? = none := by
    cases hCode : line.numeric? with
    | none => rfl
    | some code =>
        rw [line.pong?_of_numeric hCode] at hPong
        cases hPong
  have hHandled (settled : Session) :
      settled.handled line now = settled.serverPong line now := by
    simp only [handled, hWord, command, hCommand]
  have hPing : ((s.noticing now).settledFor line).ping = s.ping.activity now.millis :=
    ping_settledFor _ _
  simp only [s.dispatch_eq_handled now h, tells, Step.andThen, hHandled, serverPong, hPing]
  rw [PingTracker.receive]
  obtain ⟨lag?, ping⟩ := (s.ping.activity now.millis).pong line.trailing now.millis
  cases lag? <;> rfl

section Run

variable {interval timeout : Nat} (hActive : s.phase.isActive = true)
  (hNew : s.ping = PingTracker.new interval timeout)
include hActive hNew

/-- The keepalive of a session goes through the run that its texts and polls make. -/
theorem ping_after (past : List Occasion) :
    (s.after past).phase.isActive = true ∧
      (s.after past).ping =
        (PingTracker.run interval timeout (past.map Occasion.happening)).2 := by
  induction past with
  | nil => exact ⟨hActive, hNew⟩
  | cons occasion past ih =>
      obtain ⟨hStill, hPing⟩ := ih
      obtain ⟨hTaken, hStep⟩ := ping_take occasion hStill
      rw [hPing] at hStep
      exact ⟨hTaken, hStep⟩

/-- What a poll comes to after any number of texts and polls. A PING goes out only if the interval
has passed since each earlier one, and the timeout since each that is unanswered. The connection
counts as dead exactly if the timeout has passed since an unanswered PING and no text came after
it. -/
theorem pollPing_after {now : Nat} {past : List Occasion} {log : List PingTracker.Entry}
    (hLog : (PingTracker.run interval timeout (past.map Occasion.happening)).1 = log)
    (hOrder : PingTracker.InOrder now (past.map Occasion.happening)) :
    (((s.after past).pollPing now).2.lines ≠ [] → ∀ p ∈ PingTracker.pings log,
      interval ≤ now - p.sent ∧
        (p ∈ PingTracker.unanswered log → timeout ≤ now - p.sent)) ∧
    (((s.after past).pollPing now).1 = .timedOut ↔ ∃ p ∈ PingTracker.unanswered log,
      timeout ≤ now - p.sent ∧ ¬PingTracker.HeardAfter p.sent log) := by
  subst hLog
  obtain ⟨hStill, hPing⟩ := ping_after hActive hNew past
  obtain ⟨hAction, hLines, _⟩ := pollPing_of_active now hStill
  obtain ⟨hTimes, hRun⟩ := hOrder.log interval timeout
  have hExplains := hOrder.explains interval timeout
  rw [← hPing] at hExplains
  rw [hAction, hLines]
  refine ⟨fun hSent p hIn => ?_, hExplains.timedOut_iff hRun⟩
  have hSend : ((s.after past).ping.poll now).1 = .sendPing := by
    by_contra hOther
    rw [PingTracker.attend_of_ne hOther] at hSent
    exact hSent rfl
  exact hExplains.spacing hTimes hRun hSend hIn

/-- What a PONG tells after any number of texts and polls: a lag exactly if its token is that of
the latest PING and this one may still be answered. -/
theorem pingAnswered_after {now : Moment} {past : List Occasion} {log : List PingTracker.Entry}
    (hLog : (PingTracker.run interval timeout (past.map Occasion.happening)).1 = log)
    (hOrder : PingTracker.InOrder now.millis (past.map Occasion.happening))
    {raw token : String} {line : Line} (hLine : Picture.lineOf? raw = some line)
    (hPong : line.pong? = some token) (lag : Nat) :
    Event.pingAnswered lag ∈ ((s.after past).dispatch raw now).events ↔
      ∃ p, (PingTracker.pings log).head? = some p ∧ PingTracker.Outstanding timeout log p ∧
        p.token = token ∧ lag = now.millis - p.sent := by
  subst hLog
  have hExplains := hOrder.explains interval timeout
  rw [← (ping_after hActive hNew past).2] at hExplains
  rw [← hExplains.lag_iff token lag, events_dispatch_pong now hLine hPong]
  have hSettlement : Event.pingAnswered lag ∉ (s.after past).settlement line := by
    unfold settlement
    split <;> simp
  simp [hSettlement]

end Run

end Session

end Irc
