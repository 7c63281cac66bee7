import Irc.Ping
import Mathlib.Data.List.Nodup
/-! The keepalive over whole runs of a connection: lines that arrive and polls, at times that never
run back. What a tracker answers is told by the past of the run alone: which PINGs have gone out,
which tokens have come back, and when the server was heard. -/
namespace Irc.PingTracker

inductive Happening
  /-- A line from the server, with its token if it is a PONG. -/
  | line (time : Nat) (pong? : Option String)
  | poll (time : Nat)
deriving Repr, DecidableEq

def Happening.time : Happening → Nat
  | line time _ => time
  | poll time => time

/-- Something that has happened, with what the tracker made of it. -/
inductive Entry
  /-- A line, with its token if it is a PONG, and the lag that it told. -/
  | line (time : Nat) (pong? : Option String) (lag? : Option Nat)
  /-- A poll, with its answer and the token of the PING that has gone out. -/
  | poll (time : Nat) (action : PingAction) (sent? : Option String)
deriving Repr, DecidableEq

/-- A line arrives: the lag that it tells, if it is a PONG that counts. -/
def receive (t : PingTracker) (now : Nat) (pong? : Option String) : Option Nat × PingTracker :=
  match pong? with
  | some token => (t.activity now).pong token now
  | none => (none, t.activity now)

/-- A poll. A PING that is due goes out at once: its token. -/
def attend (t : PingTracker) (now : Nat) : PingAction × Option String × PingTracker :=
  let (action, t) := t.poll now
  match action with
  | .sendPing =>
    let (token, t) := t.start now
    (.sendPing, some token, t)
  | action => (action, none, t)

def step (t : PingTracker) : Happening → Entry × PingTracker
  | .line now pong? =>
    let (lag?, t) := t.receive now pong?
    (.line now pong? lag?, t)
  | .poll now =>
    let (action, sent?, t) := t.attend now
    (.poll now action sent?, t)

theorem step_line (t : PingTracker) (now : Nat) (pong? : Option String) :
    (t.step (.line now pong?)).2 = (t.receive now pong?).2 := rfl

theorem step_poll (t : PingTracker) (now : Nat) : (t.step (.poll now)).2 = (t.attend now).2.2 := rfl

/-- A run from the beginning of a connection, the latest happening first: what the tracker has made
of each, and the tracker after all. -/
def run (interval timeout : Nat) : List Happening → List Entry × PingTracker
  | [] => ([], new interval timeout)
  | h :: past =>
    let (log, t) := run interval timeout past
    let (e, t) := t.step h
    (e :: log, t)

/-- The clock has never run back, and is at `now`. -/
def InOrder (now : Nat) (past : List Happening) : Prop :=
  (now :: past.map Happening.time).Pairwise (· ≥ ·)

instance (now : Nat) (past : List Happening) : Decidable (InOrder now past) :=
  inferInstanceAs (Decidable (List.Pairwise _ _))

namespace Entry

def time : Entry → Nat
  | line time _ _ => time
  | poll time _ _ => time

def ping? : Entry → Option PendingPing
  | line .. => none
  | poll time _ sent? => sent?.map (⟨·, time⟩)

def token? : Entry → Option String
  | line _ pong? _ => pong?
  | poll .. => none

/-- The token for which a lag was told. -/
def told? : Entry → Option String
  | line _ pong? (some _) => pong?
  | _ => none

def heard? : Entry → Option Nat
  | line time _ _ => some time
  | poll .. => none

def isPoll : Entry → Bool
  | line .. => false
  | poll .. => true

end Entry

/-- The PINGs that have gone out, the latest first. -/
def pings (log : List Entry) : List PendingPing := log.filterMap Entry.ping?

/-- The PINGs that have gone out and whose tokens have not come back since. -/
def unanswered : List Entry → List PendingPing
  | [] => []
  | e :: past => e.ping?.toList ++ (unanswered past).filter fun p => e.token? ≠ some p.token

/-- When the server was heard, the latest time first. -/
def heard (log : List Entry) : List Nat := log.filterMap Entry.heard?

def HeardAfter (s : Nat) (log : List Entry) : Prop := ∃ time ∈ heard log, s < time

instance (s : Nat) (log : List Entry) : Decidable (HeardAfter s log) :=
  inferInstanceAs (Decidable (∃ time ∈ heard log, s < time))

/-- A poll after a PING's time was up has found that the server had been heard after the PING. -/
def GivenUp (timeout : Nat) (p : PendingPing) : List Entry → Prop
  | [] => False
  | e :: past =>
    (e.isPoll ∧ timeout ≤ e.time - p.sent ∧ HeardAfter p.sent past) ∨ GivenUp timeout p past

/-- A PING that may still be answered. -/
def Outstanding (timeout : Nat) (log : List Entry) (p : PendingPing) : Prop :=
  p ∈ unanswered log ∧ ¬ GivenUp timeout p log

/-- Different numbers have different tokens. -/
theorem token_injective : Function.Injective token := by
  intro m n h
  have hRepr : Nat.repr m = Nat.repr n := (String.append_right_inj _).mp h
  have hDigits : Nat.toDigits 10 m = Nat.toDigits 10 n := by
    rwa [Nat.repr_eq_ofList_toDigits, Nat.repr_eq_ofList_toDigits, String.ofList_inj] at hRepr
  rw [← Nat.ofDigitChars_ten_toDigits (n := m), hDigits, Nat.ofDigitChars_ten_toDigits]

section Log

variable {timeout s now : Nat} {pong? : Option String} {lag? : Option Nat} {action : PingAction}
  {token : String} {log : List Entry} {p : PendingPing}

/-- A line leaves unanswered what its token does not answer. -/
theorem unanswered_line :
    unanswered (.line now pong? lag? :: log) =
      (unanswered log).filter fun p => pong? ≠ some p.token := rfl

@[simp] theorem unanswered_poll {sent? : Option String} :
    unanswered (.poll now action sent? :: log) =
      (sent?.map (⟨·, now⟩)).toList ++ unanswered log := by
  simp [unanswered, Entry.ping?, Entry.token?]

@[simp] theorem pings_line : pings (.line now pong? lag? :: log) = pings log := rfl

@[simp] theorem pings_poll {sent? : Option String} :
    pings (.poll now action sent? :: log) = (sent?.map (⟨·, now⟩)).toList ++ pings log := by
  cases sent? <;> rfl

theorem told_line {tok : String}
    (h : (Entry.line now pong? lag?).told? = some tok) : pong? = some tok ∧ ∃ lag, lag? = some lag := by
  cases lag? with
  | none => cases h
  | some lag => exact ⟨h, lag, rfl⟩

/-- What is unanswered has been sent. -/
theorem mem_pings_of_unanswered (h : p ∈ unanswered log) : p ∈ pings log := by
  induction log with
  | nil => cases h
  | cons e past ih =>
      cases e with
      | line => exact ih (List.mem_filter.mp h).1
      | poll time action sent? =>
          rw [unanswered_poll, List.mem_append] at h
          rw [pings_poll, List.mem_append]
          exact h.imp_right ih

theorem sent_le_of_mem_pings (hTimes : ∀ e ∈ log, e.time ≤ now) (h : p ∈ pings log) :
    p.sent ≤ now := by
  obtain ⟨e, hIn, hPing⟩ := List.mem_filterMap.mp h
  have hTime := hTimes e hIn
  cases e with
  | line => cases hPing
  | poll time action sent? =>
      obtain ⟨token, _, rfl⟩ := Option.map_eq_some_iff.mp hPing
      exact hTime

theorem le_of_mem_heard (hTimes : ∀ e ∈ log, e.time ≤ now) {time : Nat} (h : time ∈ heard log) :
    time ≤ now := by
  obtain ⟨e, hIn, hHeard⟩ := List.mem_filterMap.mp h
  have hTime := hTimes e hIn
  cases e with
  | line =>
      cases hHeard
      exact hTime
  | poll => cases hHeard

theorem not_heardAfter (hTimes : ∀ e ∈ log, e.time ≤ now) : ¬ HeardAfter now log :=
  fun ⟨_, hIn, hLater⟩ => absurd (le_of_mem_heard hTimes hIn) (Nat.not_le.mpr hLater)

/-- The latest line decides whether the server was heard after a time. -/
theorem heardAfter_iff (hOrder : log.Pairwise fun later earlier => later.time ≥ earlier.time) :
    HeardAfter s log ↔ ∃ last, (heard log).head? = some last ∧ s < last := by
  refine ⟨fun ⟨time, hIn, hLater⟩ => ?_, fun ⟨last, hLast, hLater⟩ =>
    ⟨last, List.mem_of_mem_head? hLast, hLater⟩⟩
  induction log with
  | nil => cases hIn
  | cons e past ih =>
      obtain ⟨hFirst, hRest⟩ := List.pairwise_cons.mp hOrder
      cases e with
      | poll => exact ih hRest ⟨time, hIn, hLater⟩ hIn
      | line last =>
          refine ⟨last, rfl, ?_⟩
          rcases List.mem_cons.mp hIn with rfl | hPast
          · exact hLater
          · exact Nat.lt_of_lt_of_le hLater (le_of_mem_heard hFirst hPast)

/-- A PING is given up only if the server was heard after it. -/
theorem GivenUp.heardAfter (h : GivenUp timeout p log) : HeardAfter p.sent log := by
  induction log with
  | nil => cases h
  | cons e past ih =>
      obtain ⟨time, hIn, hLater⟩ := h.elim (fun hNow => hNow.2.2) ih
      exact ⟨time, ((List.sublist_cons_self e past).filterMap Entry.heard?).subset hIn, hLater⟩

/-- A PING is given up only if its time is up. -/
theorem GivenUp.le (hTimes : ∀ e ∈ log, e.time ≤ now) (h : GivenUp timeout p log) :
    timeout ≤ now - p.sent := by
  induction log with
  | nil => cases h
  | cons e past ih =>
      rcases h with hNow | hPast
      · exact Nat.le_trans hNow.2.1 (Nat.sub_le_sub_right (hTimes e List.mem_cons_self) p.sent)
      · exact ih (fun e' hIn => hTimes e' (List.mem_cons_of_mem e hIn)) hPast

/-- A token comes back in a line that is no earlier than its PING. -/
theorem heard_of_answered (hOrder : log.Pairwise fun later earlier => later.time ≥ earlier.time)
    (hSent : p ∈ pings log) (hAnswered : p ∉ unanswered log) :
    ∃ last, (heard log).head? = some last ∧ p.sent ≤ last := by
  induction log with
  | nil => cases hSent
  | cons e past ih =>
      obtain ⟨hFirst, hRest⟩ := List.pairwise_cons.mp hOrder
      cases e with
      | line time => exact ⟨time, rfl, sent_le_of_mem_pings hFirst hSent⟩
      | poll time action sent? =>
          rw [unanswered_poll, List.mem_append, not_or] at hAnswered
          rw [pings_poll, List.mem_append] at hSent
          exact ih hRest (hSent.resolve_left hAnswered.1) hAnswered.2

/-- A line ends the wait for a PING exactly if it brings its token. -/
theorem outstanding_line :
    Outstanding timeout (.line now pong? lag? :: log) p ↔
      Outstanding timeout log p ∧ pong? ≠ some p.token := by
  have hGivenUp : GivenUp timeout p (.line now pong? lag? :: log) ↔ GivenUp timeout p log := by
    simp [GivenUp, Entry.isPoll]
  rw [Outstanding, Outstanding, hGivenUp, unanswered_line, List.mem_filter, decide_eq_true_iff,
    and_right_comm]

/-- A poll that sends nothing ends the wait exactly if the time is up and the server was heard
meanwhile. -/
theorem outstanding_poll :
    Outstanding timeout (.poll now action none :: log) p ↔
      Outstanding timeout log p ∧ ¬ (timeout ≤ now - p.sent ∧ HeardAfter p.sent log) := by
  have hGivenUp : GivenUp timeout p (.poll now action none :: log) ↔
      (timeout ≤ now - p.sent ∧ HeardAfter p.sent log) ∨ GivenUp timeout p log := by
    simp [GivenUp, Entry.isPoll, Entry.time]
  have hIn : p ∈ unanswered (.poll now action none :: log) ↔ p ∈ unanswered log := by simp
  rw [Outstanding, Outstanding, hGivenUp, hIn, not_or, and_assoc,
    and_comm (b := ¬ GivenUp timeout p log)]

/-- A poll that sends a PING adds this one to those that are waited for. -/
theorem outstanding_poll_some (hTimes : ∀ e ∈ log, e.time ≤ now) :
    Outstanding timeout (.poll now action (some token) :: log) p ↔
      p = ⟨token, now⟩ ∨ Outstanding timeout (.poll now action none :: log) p := by
  have hFresh : ¬ GivenUp timeout ⟨token, now⟩ (.poll now action none :: log) :=
    fun h => not_heardAfter hTimes h.heardAfter
  have hIn : p ∈ unanswered (.poll now action (some token) :: log) ↔
      p = ⟨token, now⟩ ∨ p ∈ unanswered (.poll now action none :: log) := by
    simp
  have hGivenUp : GivenUp timeout p (.poll now action (some token) :: log) ↔
      GivenUp timeout p (.poll now action none :: log) := Iff.rfl
  rw [Outstanding, hIn, hGivenUp, or_and_right]
  refine or_congr (and_iff_left_of_imp ?_) Iff.rfl
  rintro rfl
  exact hFresh

end Log

section Tracker

variable {t : PingTracker} {now : Nat}

/-- All that a poll can do: nothing before the first line, a PING if one is due and none is out,
and with one that is out, wait, fail, or forget it. -/
theorem poll_cases (t : PingTracker) (now : Nat) :
    (t.lastActivity = none ∧ t.poll now = (.idle, t)) ∨
      ∃ last, t.lastActivity = some last ∧
        ((t.pending = none ∧ t.poll now = (t.due last now, t)) ∨
          ∃ p, t.pending = some p ∧
            ((now - p.sent < t.timeout ∧ t.poll now = (.idle, t)) ∨
              (t.timeout ≤ now - p.sent ∧ last ≤ p.sent ∧ t.poll now = (.timedOut, t)) ∨
              (t.timeout ≤ now - p.sent ∧ p.sent < last ∧
                t.poll now = (t.due last now, { t with pending := none })))) := by
  cases hLast : t.lastActivity with
  | none => exact .inl ⟨rfl, by simp only [poll, hLast]⟩
  | some last =>
      refine .inr ⟨last, rfl, ?_⟩
      cases hPending : t.pending with
      | none => exact .inl ⟨rfl, by simp only [poll, hLast, hPending]⟩
      | some p =>
          refine .inr ⟨p, rfl, ?_⟩
          simp only [poll, hLast, hPending]
          by_cases hWait : now - p.sent < t.timeout
          · exact .inl ⟨hWait, if_pos hWait⟩
          · rw [if_neg hWait]
            by_cases hQuiet : last ≤ p.sent
            · exact .inr (.inl ⟨by omega, hQuiet, if_pos hQuiet⟩)
            · exact .inr (.inr ⟨by omega, by omega, if_neg hQuiet⟩)

theorem due_ne_timedOut (last : Nat) : t.due last now ≠ .timedOut := by
  unfold due
  split <;> decide

theorem due_eq_sendPing {last : Nat} : t.due last now = .sendPing ↔ t.interval ≤ now - last := by
  unfold due
  split
  next h => exact iff_of_true rfl h
  next h => exact iff_of_false (by decide) h

/-- A poll changes nothing but whether a PING is out. -/
theorem poll_keeps : (t.poll now).2 = { t with pending := (t.poll now).2.pending } := by
  obtain ⟨_, h⟩ | ⟨_, _, ⟨_, h⟩ | ⟨_, _, ⟨_, h⟩ | ⟨_, _, h⟩ | ⟨_, _, h⟩⟩⟩ := poll_cases t now <;>
    rw [h]

/-- A poll forgets a PING whose time is up if the server was heard after it. -/
theorem pending_poll {p : PendingPing} :
    (t.poll now).2.pending = some p ↔ t.pending = some p ∧
      ¬ (t.timeout ≤ now - p.sent ∧ ∃ last, t.lastActivity = some last ∧ p.sent < last) := by
  obtain ⟨hLast, h⟩ | ⟨_, hLast, ⟨hNone, h⟩ | ⟨_, hSome, ⟨_, h⟩ | ⟨_, _, h⟩ | ⟨_, _, h⟩⟩⟩ :=
    poll_cases t now <;> rw [h] <;> grind

/-- A tracker finds the server dead exactly if the time of the PING that it waits for is up and
nothing was heard since. -/
theorem timedOut_iff :
    (t.poll now).1 = .timedOut ↔ ∃ p last, t.pending = some p ∧ t.lastActivity = some last ∧
      t.timeout ≤ now - p.sent ∧ last ≤ p.sent := by
  obtain ⟨hLast, h⟩ | ⟨_, hLast, ⟨hNone, h⟩ | ⟨_, hSome, ⟨_, h⟩ | ⟨_, _, h⟩ | ⟨_, _, h⟩⟩⟩ :=
    poll_cases t now <;> rw [h] <;> grind [due_ne_timedOut]

/-- A PING is due exactly if none is waited for and the server has been silent for the interval. -/
theorem sendPing_iff :
    (t.poll now).1 = .sendPing ↔ (t.poll now).2.pending = none ∧
      ∃ last, t.lastActivity = some last ∧ t.interval ≤ now - last := by
  obtain ⟨hLast, h⟩ | ⟨_, hLast, ⟨hNone, h⟩ | ⟨_, hSome, ⟨_, h⟩ | ⟨_, _, h⟩ | ⟨_, _, h⟩⟩⟩ :=
    poll_cases t now <;> rw [h] <;> grind [due_eq_sendPing]

theorem attend_of_sendPing (h : (t.poll now).1 = .sendPing) :
    t.attend now =
      (.sendPing, some (token ((t.poll now).2.count + 1)), ((t.poll now).2.start now).2) := by
  show (match (t.poll now).1 with
    | .sendPing => _
    | action => _) = _
  rw [h]
  rfl

theorem attend_of_ne (h : (t.poll now).1 ≠ .sendPing) :
    t.attend now = ((t.poll now).1, none, (t.poll now).2) := by
  show (match (t.poll now).1 with
    | .sendPing => _
    | action => _) = _
  cases hAction : (t.poll now).1 with
  | sendPing => exact absurd hAction h
  | idle => rfl
  | timedOut => rfl

/-- All that a line can do: it answers the PING that is out, or is activity and no more. -/
theorem receive_cases (t : PingTracker) (now : Nat) (pong? : Option String) :
    (∃ p, t.pending = some p ∧ pong? = some p.token ∧
        t.receive now pong? =
          (some (now - p.sent), { t with lastActivity := some now, pending := none })) ∨
      ((∀ p, t.pending = some p → pong? ≠ some p.token) ∧
        t.receive now pong? = (none, t.activity now)) := by
  cases pong? with
  | none => exact .inr ⟨fun _ _ h => (by cases h), rfl⟩
  | some token =>
      simp only [receive, pong, activity]
      cases hPending : t.pending with
      | none => exact .inr ⟨fun _ h => (by cases h), rfl⟩
      | some p =>
          by_cases hToken : p.token = token
          · subst hToken
            exact .inl ⟨p, rfl, rfl, if_pos rfl⟩
          · refine .inr ⟨?_, if_neg hToken⟩
            rintro q ⟨⟩ ⟨⟩
            exact hToken rfl

/-- A line changes the time of the last activity and the PING that is waited for, no more. -/
theorem receive_keeps (pong? : Option String) :
    (t.receive now pong?).2 =
      { t with lastActivity := some now, pending := (t.receive now pong?).2.pending } := by
  obtain ⟨_, _, _, h⟩ | ⟨_, h⟩ := receive_cases t now pong? <;> rw [h]
  rfl

/-- A line takes away the PING that is waited for exactly if it brings its token. -/
theorem pending_receive {pong? : Option String} {p : PendingPing} :
    (t.receive now pong?).2.pending = some p ↔
      t.pending = some p ∧ pong? ≠ some p.token := by
  obtain ⟨_, _, _, h⟩ | ⟨_, h⟩ := receive_cases t now pong? <;> rw [h] <;> grind [activity]

/-- A lag is told exactly for the token of the PING that is waited for. -/
theorem lag_iff {pong? : Option String} {lag : Nat} :
    (t.receive now pong?).1 = some lag ↔
      ∃ p, t.pending = some p ∧ pong? = some p.token ∧ lag = now - p.sent := by
  obtain ⟨_, _, _, h⟩ | ⟨_, h⟩ := receive_cases t now pong? <;> rw [h] <;> grind

end Tracker

/-- The tracker is what the log leads to. -/
structure Explains (interval timeout : Nat) (log : List Entry) (t : PingTracker) : Prop where
  interval_eq : t.interval = interval
  timeout_eq : t.timeout = timeout
  heard : t.lastActivity = (heard log).head?
  /-- There is no PING before the first line. -/
  silence : t.lastActivity = none → pings log = []
  pending : ∀ p, t.pending = some p ↔ Outstanding timeout log p
  latest : ∀ p, t.pending = some p → (pings log).head? = some p
  tokens : (pings log).map (·.token) = (List.range' 1 t.count).reverse.map token
  /-- A lag was told for PINGs only, and their tokens are back. -/
  told : ∀ e ∈ log, ∀ tok, e.told? = some tok →
    tok ∈ (pings log).map (·.token) ∧ ∀ p ∈ unanswered log, p.token ≠ tok

namespace Explains

variable {interval timeout now : Nat} {log : List Entry} {t : PingTracker}

theorem new (interval timeout : Nat) : Explains interval timeout [] (new interval timeout) where
  interval_eq := rfl
  timeout_eq := rfl
  heard := rfl
  silence _ := rfl
  pending p := by simp [PingTracker.new, Outstanding, unanswered]
  latest p h := by cases h
  tokens := rfl
  told e h := by cases h

theorem mem_pings (h : Explains interval timeout log t) {p : PendingPing}
    (hPending : t.pending = some p) : p ∈ pings log :=
  List.mem_of_mem_head? (h.latest p hPending)

theorem line (h : Explains interval timeout log t) (pong? : Option String) :
    Explains interval timeout (.line now pong? (t.receive now pong?).1 :: log)
      (t.receive now pong?).2 where
  interval_eq := by rw [receive_keeps, h.interval_eq]
  timeout_eq := by rw [receive_keeps, h.timeout_eq]
  heard := by rw [receive_keeps]; rfl
  silence hNone := by rw [receive_keeps] at hNone; cases hNone
  pending p := by rw [pending_receive, outstanding_line, h.pending]
  latest p hPending := h.latest p (pending_receive.mp hPending).1
  tokens := by rw [receive_keeps]; exact h.tokens
  told e hIn tok hTold := by
    rw [unanswered_line, pings_line]
    rcases List.mem_cons.mp hIn with rfl | hPast
    · obtain ⟨hPong, lag, hLag⟩ := told_line hTold
      obtain ⟨p, hPending, rfl, _⟩ := lag_iff.mp hLag
      cases hPong
      refine ⟨List.mem_map_of_mem (h.mem_pings hPending), fun q hUnanswered hSame => ?_⟩
      simp [hSame] at hUnanswered
    · obtain ⟨hSent, hBack⟩ := h.told e hPast tok hTold
      exact ⟨hSent, fun p hUnanswered => hBack p (List.mem_filter.mp hUnanswered).1⟩

/-- A poll that sends nothing keeps tracker and log in step. -/
theorem poll (h : Explains interval timeout log t)
    (hOrder : log.Pairwise fun later earlier => later.time ≥ earlier.time) (action : PingAction) :
    Explains interval timeout (.poll now action none :: log) (t.poll now).2 where
  interval_eq := by rw [poll_keeps, h.interval_eq]
  timeout_eq := by rw [poll_keeps, h.timeout_eq]
  heard := by rw [poll_keeps, h.heard]; rfl
  silence hNone := by
    rw [poll_keeps] at hNone
    exact h.silence hNone
  pending p := by rw [pending_poll, outstanding_poll, h.pending, h.heard, h.timeout_eq, heardAfter_iff hOrder]
  latest p hPending := h.latest p (pending_poll.mp hPending).1
  tokens := by rw [poll_keeps]; exact h.tokens
  told e hIn tok hTold := by
    rw [unanswered_poll, pings_poll]
    rcases List.mem_cons.mp hIn with rfl | hPast
    · cases hTold
    · exact h.told e hPast tok hTold

/-- The token of the next PING has not been used. -/
theorem fresh (h : Explains interval timeout log t) :
    token (t.count + 1) ∉ (pings log).map (·.token) := by
  rw [h.tokens]
  intro hUsed
  obtain ⟨n, hIn, hSame⟩ := List.mem_map.mp hUsed
  have hBound := (List.mem_range'_1.mp (List.mem_reverse.mp hIn)).2
  cases token_injective hSame
  omega

/-- A PING that goes out at a poll keeps tracker and log in step. -/
theorem start {action : PingAction} (h : Explains interval timeout (.poll now action none :: log) t)
    (hTimes : ∀ e ∈ log, e.time ≤ now) (hNone : t.pending = none) (hHeard : t.lastActivity ≠ none) :
    Explains interval timeout (.poll now action (some (t.start now).1) :: log) (t.start now).2 where
  interval_eq := h.interval_eq
  timeout_eq := h.timeout_eq
  heard := h.heard
  silence hNone := absurd hNone hHeard
  pending p := by
    rw [outstanding_poll_some hTimes, ← h.pending, hNone]
    simp [PingTracker.start, eq_comm]
  latest p hPending := by
    cases hPending
    rfl
  tokens := by
    show token (t.count + 1) :: (pings (.poll now action none :: log)).map (·.token) =
      (List.range' 1 (t.count + 1)).reverse.map token
    rw [h.tokens, List.range'_concat, List.reverse_append, Nat.one_mul, Nat.add_comm 1]
    rfl
  told e hIn tok hTold := by
    rcases List.mem_cons.mp hIn with rfl | hPast
    · cases hTold
    · obtain ⟨hSent, hBack⟩ := h.told e (List.mem_cons_of_mem _ hPast) tok hTold
      refine ⟨List.mem_cons_of_mem _ hSent, fun p hUnanswered => ?_⟩
      rcases List.mem_cons.mp hUnanswered with rfl | hEarlier
      · rintro rfl
        exact h.fresh hSent
      · exact hBack p hEarlier

/-- Whatever happens next, the tracker stays what the log leads to, as long as the clock does not
run back. -/
theorem step (h : Explains interval timeout log t) {happening : Happening}
    (hOrder : log.Pairwise fun later earlier => later.time ≥ earlier.time)
    (hTimes : ∀ e ∈ log, e.time ≤ happening.time) :
    Explains interval timeout ((t.step happening).1 :: log) (t.step happening).2 := by
  cases happening with
  | line now pong? => exact h.line pong?
  | poll now =>
      show Explains interval timeout (.poll now (t.attend now).1 (t.attend now).2.1 :: log)
        (t.attend now).2.2
      by_cases hSend : (t.poll now).1 = .sendPing
      · obtain ⟨hNone, last, hLast, _⟩ := sendPing_iff.mp hSend
        rw [attend_of_sendPing hSend]
        refine (h.poll hOrder .sendPing).start hTimes hNone ?_
        rw [poll_keeps, hLast]
        exact Option.some_ne_none last
      · rw [attend_of_ne hSend]
        exact h.poll hOrder _

/-- A PING that nobody waits for has been given up. -/
theorem pending_or_givenUp (h : Explains interval timeout log t) {p : PendingPing}
    (hUnanswered : p ∈ unanswered log) : t.pending = some p ∨ GivenUp timeout p log := by
  by_cases hGivenUp : GivenUp timeout p log
  · exact .inr hGivenUp
  · exact .inl ((h.pending p).mpr ⟨hUnanswered, hGivenUp⟩)

/-- A PING that goes out keeps its distance from all earlier ones. -/
theorem spacing (h : Explains interval timeout log t) (hTimes : ∀ e ∈ log, e.time ≤ now)
    (hOrder : log.Pairwise fun later earlier => later.time ≥ earlier.time)
    (hSend : (t.poll now).1 = .sendPing) {p : PendingPing} (hIn : p ∈ pings log) :
    interval ≤ now - p.sent ∧ (p ∈ unanswered log → timeout ≤ now - p.sent) := by
  obtain ⟨hNone, last, hLast, hDue⟩ := sendPing_iff.mp hSend
  rw [h.interval_eq] at hDue
  rw [h.heard] at hLast
  by_cases hUnanswered : p ∈ unanswered log
  · -- the poll has found the PING unanswered, and goes on only if it is given up
    have hGivenUp : GivenUp timeout p (.poll now .sendPing none :: log) := by
      refine ((h.poll hOrder .sendPing).pending_or_givenUp
        (unanswered_poll ▸ hUnanswered)).resolve_left ?_
      rw [hNone]
      exact (Option.some_ne_none p).symm
    have hTime : timeout ≤ now - p.sent :=
      hGivenUp.le (List.forall_mem_cons.mpr ⟨Nat.le_refl _, hTimes⟩)
    obtain ⟨last', hLast', hLater⟩ :=
      (heardAfter_iff (List.pairwise_cons.mpr ⟨hTimes, hOrder⟩)).mp hGivenUp.heardAfter
    cases hLast.symm.trans hLast'
    exact ⟨by omega, fun _ => hTime⟩
  · obtain ⟨last', hLast', hLater⟩ := heard_of_answered hOrder hIn hUnanswered
    cases hLast.symm.trans hLast'
    exact ⟨by omega, fun hIn => absurd hIn hUnanswered⟩

/-- The log alone tells whether the server counts as dead. -/
theorem timedOut_iff (h : Explains interval timeout log t)
    (hOrder : log.Pairwise fun later earlier => later.time ≥ earlier.time) :
    (t.poll now).1 = .timedOut ↔
      ∃ p ∈ unanswered log, timeout ≤ now - p.sent ∧ ¬ HeardAfter p.sent log := by
  rw [PingTracker.timedOut_iff, h.timeout_eq]
  constructor
  · rintro ⟨p, last, hPending, hLast, hTime, hQuiet⟩
    rw [h.heard] at hLast
    refine ⟨p, ((h.pending p).mp hPending).1, hTime, fun hHeard => ?_⟩
    obtain ⟨last', hLast', hLater⟩ := (heardAfter_iff hOrder).mp hHeard
    cases hLast.symm.trans hLast'
    omega
  · rintro ⟨p, hUnanswered, hTime, hQuiet⟩
    have hPending : t.pending = some p :=
      (h.pending_or_givenUp hUnanswered).resolve_right fun hGivenUp => hQuiet hGivenUp.heardAfter
    cases hLast : t.lastActivity with
    | none =>
        have hIn := mem_pings_of_unanswered hUnanswered
        rw [h.silence hLast] at hIn
        cases hIn
    | some last =>
        refine ⟨p, last, hPending, rfl, hTime, Nat.not_lt.mp fun hLater => hQuiet ?_⟩
        exact (heardAfter_iff hOrder).mpr ⟨last, h.heard.symm.trans hLast, hLater⟩

/-- The log alone tells the lag: only the latest PING can have one. -/
theorem lag_iff (h : Explains interval timeout log t) (tok : String) (lag : Nat) :
    (t.receive now (some tok)).1 = some lag ↔
      ∃ p, (pings log).head? = some p ∧ Outstanding timeout log p ∧ p.token = tok ∧
        lag = now - p.sent := by
  rw [PingTracker.lag_iff]
  constructor
  · rintro ⟨p, hPending, hToken, hLag⟩
    exact ⟨p, h.latest p hPending, (h.pending p).mp hPending, (Option.some.inj hToken).symm, hLag⟩
  · rintro ⟨p, _, hOutstanding, hToken, hLag⟩
    exact ⟨p, (h.pending p).mpr hOutstanding, congrArg some hToken.symm, hLag⟩

/-- A token that has told a lag is back, and tells no other one. -/
theorem lag_once (h : Explains interval timeout log t) {e : Entry} (hIn : e ∈ log) {tok : String}
    (hTold : e.told? = some tok) : (t.receive now (some tok)).1 = none := by
  cases hLag : (t.receive now (some tok)).1 with
  | none => rfl
  | some lag =>
      obtain ⟨p, _, hOutstanding, hToken, _⟩ := (h.lag_iff tok lag).mp hLag
      exact absurd hToken ((h.told e hIn tok hTold).2 p hOutstanding.1)

/-- Tokens are never used twice, so that of an older PING is not the one that is waited for. -/
theorem lag_of_older (h : Explains interval timeout log t) {p : PendingPing}
    (hOlder : p ∈ (pings log).tail) : (t.receive now (some p.token)).1 = none := by
  cases hLag : (t.receive now (some p.token)).1 with
  | none => rfl
  | some lag =>
      obtain ⟨q, hLatest, _, hToken, _⟩ := (h.lag_iff p.token lag).mp hLag
      have hDistinct : ((pings log).map (·.token)).Nodup := by
        rw [h.tokens]
        exact (List.nodup_reverse.mpr List.nodup_range').map token_injective
      rw [← List.cons_head?_tail hLatest, List.map_cons, List.nodup_cons, hToken] at hDistinct
      exact absurd (List.mem_map_of_mem hOlder) hDistinct.1

end Explains

/-- The log has the times of what happened. -/
theorem times_run (interval timeout : Nat) (past : List Happening) :
    (run interval timeout past).1.map Entry.time = past.map Happening.time := by
  induction past with
  | nil => rfl
  | cons happening past ih =>
      have hTime : ∀ t : PingTracker, (t.step happening).1.time = happening.time := by
        intro t
        cases happening <;> rfl
      exact congrArg₂ List.cons (hTime _) ih

/-- On a clock that does not run back, the log is in order and lies in the past. -/
theorem InOrder.log {now : Nat} {past : List Happening} (h : InOrder now past)
    (interval timeout : Nat) :
    (∀ e ∈ (run interval timeout past).1, e.time ≤ now) ∧
      (run interval timeout past).1.Pairwise fun later earlier => later.time ≥ earlier.time := by
  rw [InOrder, ← times_run interval timeout, List.pairwise_cons, List.pairwise_map] at h
  exact ⟨fun e hIn => h.1 e.time (List.mem_map_of_mem hIn), h.2⟩

/-- At any point of any run in order, the tracker is what the log leads to. -/
theorem InOrder.explains {now : Nat} {past : List Happening} (h : InOrder now past)
    (interval timeout : Nat) :
    Explains interval timeout (run interval timeout past).1 (run interval timeout past).2 := by
  induction past generalizing now with
  | nil => exact .new interval timeout
  | cons happening past ih =>
      have hPast : InOrder happening.time past := (List.pairwise_cons.mp h).2
      obtain ⟨hTimes, hLog⟩ := hPast.log interval timeout
      exact (ih hPast).step hLog hTimes

/-- What the tracker answers at any point of any run. A PING goes out only if the interval has
passed since each earlier one, and the timeout since each that is unanswered. The connection
counts as dead exactly if the timeout has passed since an unanswered PING and no line came after
it. A PONG tells a lag exactly if its token is that of the latest PING, as long as this one is
outstanding; so none tells a lag twice, and none does for an older PING. -/
theorem answers_of_run {interval timeout now : Nat} {past : List Happening} {log : List Entry}
    {t : PingTracker} (hRun : run interval timeout past = (log, t)) (hOrder : InOrder now past) :
    ((t.poll now).1 = .sendPing → ∀ p ∈ pings log,
      interval ≤ now - p.sent ∧ (p ∈ unanswered log → timeout ≤ now - p.sent)) ∧
    ((t.poll now).1 = .timedOut ↔
      ∃ p ∈ unanswered log, timeout ≤ now - p.sent ∧ ¬ HeardAfter p.sent log) ∧
    (∀ tok lag, (t.receive now (some tok)).1 = some lag ↔
      ∃ p, (pings log).head? = some p ∧ Outstanding timeout log p ∧ p.token = tok ∧
        lag = now - p.sent) ∧
    (∀ e ∈ log, ∀ tok, e.told? = some tok → (t.receive now (some tok)).1 = none) ∧
    ∀ p ∈ (pings log).tail, (t.receive now (some p.token)).1 = none := by
  have h : Explains interval timeout log t := by
    have hAll := hOrder.explains interval timeout
    rwa [hRun] at hAll
  obtain ⟨hTimes, hLog⟩ := hOrder.log interval timeout
  rw [hRun] at hTimes hLog
  exact ⟨fun hSend p hIn => h.spacing hTimes hLog hSend hIn, h.timedOut_iff hLog,
    h.lag_iff, fun e hIn tok hTold => h.lag_once hIn hTold, fun p hOlder => h.lag_of_older hOlder⟩

/-- Silence after the third PING, with the answers to two earlier ones in the past. -/
theorem timedOut_of_silence :
    let past := [.poll 34, .line 24 (some "slirc-2"), .line 23 (some "slirc-1"), .poll 22, .poll 15,
      .line 12 none, .poll 10, .line 0 none]
    InOrder 39 past ∧ ((run 10 5 past).2.poll 39).1 = .timedOut :=
  have hOrder := by decide
  ⟨hOrder, (answers_of_run rfl hOrder).2.1.mpr ⟨⟨"slirc-3", 34⟩, by decide⟩⟩

end Irc.PingTracker
