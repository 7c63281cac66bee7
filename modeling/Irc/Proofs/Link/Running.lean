import Irc.Link
import Irc.Proofs.Engine.Ending
/-! Whole runs of a link, whatever it attends to and whenever. What is queued goes to the writer in
order; requests are served in the order they were made; and whatever ends the connection, it is told
of once and leaves nothing behind. -/
namespace Irc

namespace Request

/-- The line that a request queues before any listener can. -/
def opening : Request → String
  | raw line => line
  | disconnect reason => Session.leaveTaking reason

def isLast : Request → Bool
  | raw _ => false
  | disconnect _ => true

end Request

namespace Link

variable {μ : Type}

/-- What one step of a run shows: the request that was made, the one that was attended to, and the
events that were fired. -/
structure Entry where
  posted : Option Request
  served : Option Request
  fired : List Event
deriving DecidableEq

def Entry.announced (entry : Entry) : List String := entry.fired.filterMap Event.sent?

def served? (l : Link μ) : Attention → Option Request
  | .request => if l.ended then none else l.inbox.head?
  | _ => none

/-- What may happen to a link: something arrives, the writer fails, or it takes a turn. A turn may
attend to anything, also to what is not ready. -/
inductive Step : Link μ → Entry → Link μ → Prop
  | receive (l : Link μ) (bytes : List UInt8) : Step l ⟨none, none, []⟩ (l.receive bytes)
  | closeInput (l : Link μ) : Step l ⟨none, none, []⟩ l.closeInput
  | post {l l' : Link μ} {r : Request} (accepted : l.post r = .ok l') : Step l ⟨some r, none, []⟩ l'
  | stopWriter (l : Link μ) (lines : Nat) : Step l ⟨none, none, []⟩ (l.stopWriter lines)
  | turn {l : Link μ} {t : LinkTurn μ} (fuel : Nat) (now : Moment) (a : Attention)
      (taken : l.turn fuel now a = some t) : Step l ⟨none, l.served? a, t.fired⟩ t.link

/-- All that has happened since an engine was set going, and the link after it. -/
inductive Run (e : Engine μ) : List Entry → Link μ → Prop
  | start {fuel : Nat} {t : LinkTurn μ} (going : Link.start fuel e = .ok (some t)) :
      Run e [⟨none, none, t.fired⟩] t.link
  | step {trace : List Entry} {entry : Entry} {l l' : Link μ}
      (prior : Run e trace l) (last : Step l entry l') : Run e (trace ++ [entry]) l'

/-- The lines that were queued by the end of a run, those that waited before it among them. -/
def queued (e : Engine μ) (trace : List Entry) : List String :=
  e.outbound ++ trace.flatMap Entry.announced

section Conveys

variable {l l' : Link μ} {lines : List String}

/-- The writer was given the first of some lines. As long as it runs, the others wait. -/
structure Conveys (l : Link μ) (lines : List String) : Prop where
  handed : l.handed <+: lines
  whole : l.room ≠ some 0 → l.handed ++ l.engine.outbound = lines

/-- A writer that is about to end takes the first of the lines that wait. -/
theorem flush_of_room {k : Nat} (h : l.room = some k) :
    l.flush.handed = l.handed ++ l.engine.outbound.take k ∧
      l.flush.room = some (k - l.engine.outbound.length) := by
  simp [flush, Engine.takeOutbound, h]

/-- Giving lines to the writer does not change what is conveyed. -/
theorem Conveys.flush (h : l.Conveys lines) : l.flush.Conveys lines := by
  cases hRoom : l.room with
  | none =>
      have hAll := h.whole (by simp [hRoom])
      have hHanded : l.flush.handed = lines := (handed_flush hRoom).trans hAll
      exact ⟨hHanded ▸ List.prefix_rfl, fun _ => by rw [hHanded, outbound_flush, List.append_nil]⟩
  | some k =>
      obtain ⟨hHanded, hLeft⟩ := flush_of_room hRoom
      cases k with
      | zero =>
          rw [List.take_zero, List.append_nil] at hHanded
          rw [Nat.zero_sub] at hLeft
          exact ⟨hHanded ▸ h.handed, fun hNot => absurd hLeft hNot⟩
      | succ k =>
          have hAll := h.whole (by simp [hRoom])
          refine ⟨?_, fun hMore => ?_⟩
          · rw [hHanded, ← hAll]
            exact (List.prefix_append_right_inj _).mpr (List.take_prefix ..)
          · -- room is left only if every line was taken
            have hTaken : l.engine.outbound.length ≤ k + 1 := by
              by_contra hFew
              exact hMore (hLeft.trans (congrArg some (by omega)))
            rw [hHanded, List.take_of_length_le hTaken, outbound_flush, List.append_nil, hAll]

/-- A flush gives the writer all that was queued, unless it has ended by then. -/
theorem Conveys.handed_flush (h : l.Conveys lines) (hRoom : l.flush.room ≠ some 0) :
    l.flush.handed = lines := by
  have hAll := h.flush.whole hRoom
  rwa [outbound_flush, List.append_nil] at hAll

/-- Lines that are queued are conveyed after all that were queued before. -/
theorem Conveys.queue {more : List String} (h : l.Conveys lines) (hHanded : l'.handed = l.handed)
    (hRoom : l'.room ≠ some 0 → l.room ≠ some 0)
    (hOutbound : l'.engine.outbound = l.engine.outbound ++ more) : l'.Conveys (lines ++ more) where
  handed := hHanded ▸ h.handed.trans (List.prefix_append ..)
  whole hNot := by rw [hHanded, hOutbound, ← List.append_assoc, h.whole (hRoom hNot)]

end Conveys

/-- How a link has to be: its session knows whether the connection is over, and after the end no
line waits for a writer that takes lines. -/
structure Sound (l : Link μ) : Prop where
  suits : l.engine.session.Suits l.ended
  emptied : l.ended = true → l.room ≠ some 0 → l.engine.outbound = []

/-- What a step makes of a sound link, requests left aside. -/
structure Carries (l : Link μ) (fired : List Event) (l' : Link μ) : Prop where
  sound : l'.Sound
  conveys : ∀ lines, l.Conveys lines → l'.Conveys (lines ++ fired.filterMap Event.sent?)
  closings : l.ended.toNat + Event.closings fired = l'.ended.toNat

section Carries

variable {l l' : Link μ} {fired : List Event} {t : Turn μ}

/-- Nothing is queued, and no more is taken by the writer than before. -/
theorem carries_nothing (h : l.Sound) (hEngine : l'.engine = l.engine) (hEnded : l'.ended = l.ended)
    (hHanded : l'.handed = l.handed) (hRoom : l'.room ≠ some 0 → l.room ≠ some 0) :
    l.Carries [] l' where
  sound := ⟨by rw [hEngine, hEnded]; exact h.suits,
    fun hOver hNot => hEngine ▸ h.emptied (hEnded ▸ hOver) (hRoom hNot)⟩
  conveys lines hConveys :=
    hConveys.queue hHanded hRoom (by rw [hEngine]; exact (List.append_nil _).symm)
  closings := by rw [hEnded]; rfl

/-- A call is made, and its lines are given to the writer or left to wait. -/
theorem carries_of_leads {ended : Bool} (hRunning : l.ended = false) (h : l.engine.Leads ended t)
    (hEnded : l'.ended = ended) (hSession : l'.engine.session = t.engine.session)
    (hEmptied : l'.ended = true → l'.room ≠ some 0 → l'.engine.outbound = [])
    (hConveys : ∀ lines, l.Conveys lines → l'.Conveys (lines ++ t.announced)) :
    l.Carries t.fired l' where
  sound := ⟨by rw [hSession, hEnded]; exact h.suits, hEmptied⟩
  conveys := hConveys
  closings := by rw [hRunning, hEnded, Bool.toNat_false, Nat.zero_add, h.accounts.closings_eq]

/-- A call after which the connection goes on is carried by the link. -/
theorem carries_goOn (hRunning : l.ended = false) (h : l.engine.Leads false t) :
    l.Carries (l.goOn t).fired (l.goOn t).link := by
  have hStill : (l.goOn t).link.ended = false := hRunning
  refine carries_of_leads hRunning h hStill rfl ?_ fun lines hConveys => ?_
  · exact fun hOver => absurd (hStill.symm.trans hOver) Bool.false_ne_true
  · exact hConveys.queue rfl id h.accounts.outbound

/-- A call that ends the connection is carried by the link, which still gives the writer what
waits. -/
theorem carries_finishFlushed (hRunning : l.ended = false) (h : l.engine.Leads true t) :
    l.Carries (l.finishFlushed t).fired (l.finishFlushed t).link := by
  let last : Link μ := { l with engine := t.engine, ended := true }
  refine carries_of_leads hRunning h rfl rfl (fun _ _ => rfl) fun lines hConveys => ?_
  have hQueued : last.Conveys (lines ++ t.announced) :=
    hConveys.queue rfl id h.accounts.outbound
  exact hQueued.flush

/-- The writer that has ended takes nothing more, so nothing is said of what waits for it. -/
theorem carries_finish (hRunning : l.ended = false) (h : l.engine.Leads true t) :
    l.Carries ({ l with room := some 0 }.finish t).fired
      ({ l with room := some 0 }.finish t).link := by
  refine carries_of_leads hRunning h rfl rfl ?_ fun lines hConveys => ?_
  · exact fun _ hNot => absurd rfl hNot
  · exact hConveys.queue rfl (fun hNot => absurd rfl hNot) h.accounts.outbound

/-- What is done to a link before a turn proper neither gives the writer anything out of order nor
ends the connection. -/
theorem Carries.of_conveys {before : Link μ} (h : l.Carries fired l')
    (hConveys : ∀ lines, before.Conveys lines → l.Conveys lines) (hEnded : l.ended = before.ended) :
    before.Carries fired l' :=
  ⟨h.sound, fun lines hBefore => h.conveys lines (hConveys lines hBefore), hEnded ▸ h.closings⟩

end Carries

/-- What a step makes of a sound link: requests are taken in the order in which they came, each
queues its line before any other, and one that asks for the end is the last. -/
structure Advances (l : Link μ) (entry : Entry) (l' : Link μ) : Prop where
  carries : l.Carries entry.fired l'
  inbox : l.inbox ++ entry.posted.toList = entry.served.toList ++ l'.inbox
  opening : ∀ r, entry.served = some r → ∃ more, entry.announced = r.opening :: more
  last : ∀ r, entry.served = some r → r.isLast = true → l'.ended = true

section Advances

variable {l l' : Link μ} {entry : Entry} {t : LinkTurn μ}
variable {fuel : Nat} {now : Moment} {a : Attention}

/-- No request is made and none is attended to. -/
theorem Carries.advances {fired : List Event} (h : l.Carries fired l')
    (hInbox : l'.inbox = l.inbox) : l.Advances ⟨none, none, fired⟩ l' :=
  ⟨h, by simp [hInbox], nofun, nofun⟩

/-- A step in which the engine does nothing leaves requests and lines where they are. -/
theorem advances_nothing (hSound : l.Sound) (hEngine : l'.engine = l.engine)
    (hEnded : l'.ended = l.ended) (hHanded : l'.handed = l.handed)
    (hRoom : l'.room ≠ some 0 → l.room ≠ some 0) (hInbox : l'.inbox = l.inbox) :
    l.Advances ⟨none, none, []⟩ l' :=
  (carries_nothing hSound hEngine hEnded hHanded hRoom).advances hInbox

/-- A step that takes the first request serves it, if the line of this request comes before all
others. -/
theorem Carries.serves {fired : List Event} {r : Request} (h : l.Carries fired l')
    (hInbox : l.inbox = r :: l'.inbox)
    (hOpening : ∃ more, fired.filterMap Event.sent? = r.opening :: more)
    (hLast : r.isLast = true → l'.ended = true) : l.Advances ⟨none, some r, fired⟩ l' where
  carries := h
  inbox := (List.append_nil _).trans hInbox
  opening := by
    rintro _ ⟨⟩
    exact hOpening
  last := by
    rintro _ ⟨⟩
    exact hLast

/-- As long as a link runs, its transport is open. -/
theorem Sound.underway (h : l.Sound) (hRunning : l.ended = false) : l.engine.session.Underway := by
  have hSuits := h.suits
  rwa [hRunning] at hSuits

/-- What the transport brings, be it texts or its own end. -/
theorem advances_input (hSound : l.Sound) (hRunning : l.ended = false)
    (h : l.attend fuel now .input = some t) : l.Advances ⟨none, none, t.fired⟩ t.link := by
  have hUnderway := hSound.underway hRunning
  unfold attend at h
  simp only at h
  generalize l.nextLine.2 = input at h
  let fed : Link μ := { l with input }
  have hConveys : ∀ lines, l.Conveys lines → fed.Conveys lines :=
    fun _ hLines => ⟨hLines.handed, hLines.whole⟩
  split at h
  next line _ =>
    obtain ⟨u, hCall, rfl⟩ := Option.map_eq_some_iff.mp h
    have hCarries := carries_goOn (l := fed) hRunning (Engine.leads_dispatch hUnderway hCall)
    exact (hCarries.of_conveys hConveys rfl).advances rfl
  next =>
    split at h
    · obtain ⟨u, hCall, rfl⟩ := Option.map_eq_some_iff.mp h
      have hCarries := carries_finishFlushed (l := fed) hRunning
        (Engine.leads_connectionLost hUnderway hCall)
      exact (hCarries.of_conveys hConveys rfl).advances rfl
    · cases h
      exact advances_nothing hSound rfl rfl rfl id rfl
  next error _ =>
    obtain ⟨u, hCall, rfl⟩ := Option.map_eq_some_iff.mp h
    have hCarries := carries_finishFlushed (l := fed) hRunning
      (Engine.leads_connectionLost hUnderway hCall)
    exact (hCarries.of_conveys hConveys rfl).advances rfl

/-- A request that is waiting, or the loss of all who could make one. -/
theorem advances_request (hSound : l.Sound) (hRunning : l.ended = false)
    (h : l.attend fuel now .request = some t) :
    l.Advances ⟨none, l.inbox.head?, t.fired⟩ t.link := by
  have hUnderway := hSound.underway hRunning
  unfold attend at h
  simp only at h
  split at h
  next hEmpty =>
    cases h
    rw [hEmpty]
    exact advances_nothing hSound rfl rfl rfl id rfl
  next r rest hInbox =>
    let taken : Link μ := { l with inbox := rest }
    have hConveys : ∀ lines, l.Conveys lines → taken.Conveys lines :=
      fun _ hLines => ⟨hLines.handed, hLines.whole⟩
    rw [hInbox]
    split at h
    next line =>
      obtain ⟨u, hCall, rfl⟩ := Option.map_eq_some_iff.mp h
      obtain ⟨hLeads, more, hMore⟩ := Engine.leads_sends hUnderway hCall
      have hCarries := (carries_goOn (l := taken) hRunning hLeads).of_conveys hConveys rfl
      exact hCarries.serves hInbox ⟨more, hMore⟩ nofun
    next reason =>
      obtain ⟨u, hCall, rfl⟩ := Option.map_eq_some_iff.mp h
      obtain ⟨hLeads, more, hMore⟩ := Engine.leads_disconnect hUnderway hCall
      have hCarries := (carries_finishFlushed (l := taken) hRunning hLeads).of_conveys hConveys rfl
      exact hCarries.serves hInbox ⟨more, hMore⟩ fun _ => rfl

/-- A tick of the clock, which may find the server dead. -/
theorem advances_tick (hSound : l.Sound) (hRunning : l.ended = false)
    (h : l.attend fuel now .tick = some t) : l.Advances ⟨none, none, t.fired⟩ t.link := by
  have hUnderway := hSound.underway hRunning
  have hPolled : ∀ u, (l.engine.pollPing fuel now.millis).2 = some u → l.engine.Leads false u :=
    fun _ => Engine.leads_pollPing hUnderway
  unfold attend at h
  simp only at h
  generalize l.engine.pollPing fuel now.millis = polled at h hPolled
  split at h
  next call =>
    obtain ⟨u, hCall, hLost⟩ := Option.bind_eq_some_iff.mp h
    obtain ⟨v, hBoth, rfl⟩ := Option.map_eq_some_iff.mp hLost
    obtain ⟨w, hNext, rfl⟩ := Option.map_eq_some_iff.mp hBoth
    have hFirst := hPolled u hCall
    have hLeads := hFirst.append (Engine.leads_connectionLost hFirst.suits hNext)
    exact (carries_finishFlushed hRunning hLeads).advances rfl
  next call _ =>
    obtain ⟨u, hCall, rfl⟩ := Option.map_eq_some_iff.mp h
    exact (carries_goOn hRunning (hPolled u hCall)).advances rfl

/-- Whatever a link attends to, it advances. -/
theorem advances_attend (hSound : l.Sound) (hRunning : l.ended = false)
    (h : l.attend fuel now a = some t) : l.Advances ⟨none, l.served? a, t.fired⟩ t.link := by
  have hUnderway := hSound.underway hRunning
  have hLost : ∀ reason, l.loseWriter fuel reason = some t →
      l.Advances ⟨none, none, t.fired⟩ t.link := by
    intro reason hCall
    obtain ⟨u, hLost, rfl⟩ := Option.map_eq_some_iff.mp hCall
    exact (carries_finish hRunning (Engine.leads_connectionLost hUnderway hLost)).advances rfl
  cases a with
  | input => exact advances_input hSound hRunning h
  | readFailed cause =>
      obtain ⟨u, hCall, rfl⟩ := Option.map_eq_some_iff.mp h
      have hLeads := Engine.leads_connectionLost hUnderway hCall
      exact (carries_finishFlushed hRunning hLeads).advances rfl
  | request =>
      have hServed : l.served? .request = l.inbox.head? := if_neg (by simp [hRunning])
      rw [hServed]
      exact advances_request hSound hRunning h
  | writeFailed cause => exact hLost _ h
  | writerClosed => exact hLost _ h
  | writerAborted cause => exact hLost _ h
  | tick => exact advances_tick hSound hRunning h

theorem Sound.flush (h : l.Sound) : l.flush.Sound := ⟨h.suits, fun _ _ => rfl⟩

/-- A turn is to flush and then to attend to one thing. -/
theorem advances_turn (hSound : l.Sound) (h : l.turn fuel now a = some t) :
    l.Advances ⟨none, l.served? a, t.fired⟩ t.link := by
  unfold turn at h
  split at h
  next hOver =>
    have hServed : l.served? a = none := by
      unfold served?
      split
      · exact if_pos hOver
      · rfl
    cases h
    rw [hServed]
    exact advances_nothing hSound rfl rfl rfl id rfl
  next hNot =>
    have hRunning : l.ended = false := Bool.eq_false_iff.mpr hNot
    have hTurn := advances_attend hSound.flush hRunning h
    exact ⟨hTurn.carries.of_conveys (fun _ => Conveys.flush) rfl, hTurn.inbox, hTurn.opening,
      hTurn.last⟩

/-- Every step of a running link advances, wherever the writer stops and whichever branch is
ready. -/
theorem advances_step (hSound : l.Sound) (h : Step l entry l') : l.Advances entry l' := by
  cases h with
  | receive bytes => exact advances_nothing hSound rfl rfl rfl id rfl
  | closeInput => exact advances_nothing hSound rfl rfl rfl id rfl
  | post accepted =>
      unfold Link.post at accepted
      split at accepted
      · cases accepted
      · cases accepted
        exact ⟨carries_nothing hSound rfl rfl rfl id, rfl, nofun, nofun⟩
  | stopWriter lines =>
      refine advances_nothing hSound rfl rfl rfl (fun hLess hNone => hLess ?_) rfl
      rw [stopWriter, hNone]
      exact congrArg some (Nat.min_zero lines)
  | turn fuel now a taken => exact advances_turn hSound taken

end Advances

section Run

variable {e : Engine μ} {trace : List Entry} {entry : Entry} {l l' : Link μ}

/-- What every step of a run keeps. -/
structure Kept (e : Engine μ) (trace : List Entry) (l : Link μ) : Prop where
  sound : l.Sound
  conveys : l.Conveys (queued e trace)
  inOrder : trace.filterMap Entry.posted = trace.filterMap Entry.served ++ l.inbox
  opening : ∀ entry ∈ trace, ∀ r, entry.served = some r →
    ∃ more, entry.announced = r.opening :: more
  last : ∀ r ∈ trace.filterMap Entry.served, r.isLast = true → l.ended = true
  closings : Event.closings (trace.flatMap Entry.fired) = l.ended.toNat

/-- The lines that are queued in a run are those of its steps in a row. -/
theorem queued_append (e : Engine μ) (trace : List Entry) (entry : Entry) :
    queued e (trace ++ [entry]) = queued e trace ++ entry.announced := by
  simp [queued]

theorem requests_concat (f : Entry → Option Request) (trace : List Entry) (entry : Entry) :
    (trace ++ [entry]).filterMap f = trace.filterMap f ++ (f entry).toList := by
  rw [List.filterMap_append, List.filterMap_cons]
  cases f entry <;> rfl

/-- The calls that set a connection going. The first is left out if the transport is known to be
opening. -/
theorem start_cases {fuel : Nat} {t : LinkTurn μ} (h : Link.start fuel e = .ok (some t)) :
    ∃ first u : Turn μ, (first = ⟨[], e⟩ ∨ e.connecting fuel = .ok (some first)) ∧
      first.engine.connected fuel = .ok (some u) ∧
      t = ⟨first.fired ++ u.fired, ⟨u.engine, Framer.new none, false, [], [], none, false⟩⟩ := by
  have hThen : ∀ first : Turn μ,
      (do return (← first.engine.connected fuel).map fun u =>
        ⟨first.fired ++ u.fired, ⟨u.engine, Framer.new none, false, [], [], none, false⟩⟩ :
        Except ConnectionError (Option (LinkTurn μ))) = .ok (some t) →
      ∃ u, first.engine.connected fuel = .ok (some u) ∧
        t = ⟨first.fired ++ u.fired, ⟨u.engine, Framer.new none, false, [], [], none, false⟩⟩ := by
    intro first hGoing
    cases hConnected : first.engine.connected fuel with
    | error cause =>
        rw [hConnected] at hGoing
        cases hGoing
    | ok call =>
        rw [hConnected] at hGoing
        obtain ⟨u, rfl, hTurn⟩ := Option.map_eq_some_iff.mp (Except.ok.inj hGoing)
        exact ⟨u, rfl, hTurn.symm⟩
  unfold start at h
  split at h
  · cases hOpening : e.connecting fuel with
    | error cause =>
        rw [hOpening] at h
        cases h
    | ok call =>
        rw [hOpening] at h
        cases call with
        | none => cases h
        | some first =>
            obtain ⟨u, hConnected, hTurn⟩ := hThen first h
            exact ⟨first, u, .inr rfl, hConnected, hTurn⟩
  · obtain ⟨u, hConnected, hTurn⟩ := hThen ⟨[], e⟩ h
    exact ⟨⟨[], e⟩, u, .inl rfl, hConnected, hTurn⟩

/-- A link that has just started keeps all of it. -/
theorem kept_start {fuel : Nat} {t : LinkTurn μ} (h : Link.start fuel e = .ok (some t)) :
    Kept e [⟨none, none, t.fired⟩] t.link := by
  obtain ⟨first, u, hOpening, hConnected, rfl⟩ := start_cases h
  have hFirst : e.Accounts 0 first := by
    rcases hOpening with rfl | hOpening
    · exact ⟨(List.append_nil _).symm, rfl⟩
    · exact Engine.accounts_connecting hOpening
  have hLeads := Engine.leads_connected hConnected
  have hBoth := hFirst.append hLeads.accounts
  have hQueued : u.engine.outbound = queued e [⟨none, none, first.fired ++ u.fired⟩] := by
    rw [queued, List.flatMap_singleton]
    exact hBoth.outbound
  refine ⟨⟨hLeads.suits, nofun⟩, ⟨List.nil_prefix, fun _ => hQueued⟩, rfl, ?_, nofun, ?_⟩
  · intro entry hIn r hServed
    rw [List.mem_singleton.mp hIn] at hServed
    cases hServed
  · rw [List.flatMap_singleton]
    exact hBoth.closings_eq

/-- One more step keeps what the run so far has kept, requests and the end included. -/
theorem Kept.step (h : Kept e trace l) (last : Step l entry l') :
    Kept e (trace ++ [entry]) l' := by
  have hStep := advances_step h.sound last
  have hOnce : l.ended = true → l'.ended = true := by
    intro hOver
    have hClosings := hStep.carries.closings
    rw [hOver, Bool.toNat_true] at hClosings
    exact Bool.toNat_eq_one.mp (by have := l'.ended.toNat_le; omega)
  refine ⟨hStep.carries.sound, ?_, ?_, ?_, ?_, ?_⟩
  · rw [queued_append]
    exact hStep.carries.conveys _ h.conveys
  · have hInbox := hStep.inbox
    rw [requests_concat, requests_concat, h.inOrder, List.append_assoc, hInbox, List.append_assoc]
  · intro other hIn
    rcases List.mem_append.mp hIn with hPrior | hLast
    · exact h.opening other hPrior
    · rw [List.mem_singleton.mp hLast]
      exact hStep.opening
  · intro r hIn hLast
    rw [requests_concat] at hIn
    rcases List.mem_append.mp hIn with hPrior | hNew
    · exact hOnce (h.last r hPrior hLast)
    · exact hStep.last r (Option.mem_toList.mp hNew) hLast
  · rw [List.flatMap_append, Event.closings_append, h.closings, List.flatMap_singleton]
    exact hStep.carries.closings

/-- Whatever happens in a run, in any order, all of it is kept. -/
theorem kept_of_run (run : Run e trace l) : Kept e trace l := by
  induction run with
  | start going => exact kept_start going
  | step prior last ih => exact ih.step last

/-- Requests that were attended to have their lines queued in the same order, whatever else is
queued between them. -/
theorem sublist_announced
    (hOpening : ∀ entry ∈ trace, ∀ r, entry.served = some r →
      ∃ more, entry.announced = r.opening :: more) :
    ((trace.filterMap Entry.served).map Request.opening).Sublist
      (trace.flatMap Entry.announced) := by
  induction trace with
  | nil => exact .slnil
  | cons entry rest ih =>
      have hRest := ih fun other hIn => hOpening other (List.mem_cons_of_mem _ hIn)
      rw [List.flatMap_cons]
      cases hServed : entry.served with
      | none =>
          rw [List.filterMap_cons_none hServed]
          exact hRest.trans (List.sublist_append_right ..)
      | some r =>
          obtain ⟨more, hMore⟩ := hOpening entry List.mem_cons_self r hServed
          rw [List.filterMap_cons_some hServed, List.map_cons, hMore]
          exact (hRest.trans (List.sublist_append_right ..)).cons_cons _

/-- The line of a request is queued behind those of all requests that were made before it. -/
theorem Kept.queued_of_served {earlier later : List Request} {r : Request} (h : Kept e trace l)
    (hServed : trace.filterMap Entry.served = earlier ++ r :: later) :
    ∃ before after, queued e trace = before ++ r.opening :: after ∧
      (earlier.map Request.opening).Sublist before := by
  obtain ⟨first, rest, rfl, hEarlier, hRest⟩ := List.filterMap_eq_append_iff.mp hServed
  obtain ⟨gap, entry, last, rfl, -, hEntry, -⟩ := List.filterMap_eq_cons_iff.mp hRest
  obtain ⟨more, hMore⟩ := h.opening entry (by simp) r hEntry
  refine ⟨e.outbound ++ (first.flatMap Entry.announced ++ gap.flatMap Entry.announced),
    more ++ last.flatMap Entry.announced, ?_, ?_⟩
  · simp [queued, hMore]
  · rw [← hEarlier]
    have hFirst := sublist_announced fun entry hIn => h.opening entry (List.mem_append_left _ hIn)
    exact (hFirst.trans (List.sublist_append_left ..)).trans (List.sublist_append_right ..)

/-- What every run comes to, in whatever order things become ready. -/
structure Orderly (e : Engine μ) (trace : List Entry) (l : Link μ) : Prop where
  /-- Lines are given to the writer as they were queued, none twice and none before another. -/
  handed : l.handed <+: queued e trace
  /-- As long as the writer takes lines, each one was given to it or waits. -/
  whole : l.room ≠ some 0 → l.handed ++ l.engine.outbound = queued e trace
  /-- None waits any more after the flush that a turn begins with. -/
  flushed : l.flush.room ≠ some 0 → l.flush.handed = queued e trace
  /-- Nor does one when the connection is over. -/
  emptied : l.ended = true → l.room ≠ some 0 → l.handed = queued e trace
  /-- Requests are attended to in the order in which they were made. -/
  inOrder : trace.filterMap Entry.posted = trace.filterMap Entry.served ++ l.inbox
  /-- One that is attended to queues its line at once. -/
  opening : ∀ entry ∈ trace, ∀ r, entry.served = some r →
    ∃ more, entry.announced = r.opening :: more
  /-- The lines of all earlier ones were queued before it, in order. -/
  earlier : ∀ earlier r later, trace.filterMap Entry.served = earlier ++ r :: later →
    ∃ before after, queued e trace = before ++ r.opening :: after ∧
      (earlier.map Request.opening).Sublist before
  /-- When we take leave, the connection is over, and the writer has been told to take leave. -/
  leave : ∀ reason, .disconnect reason ∈ trace.filterMap Entry.served →
    l.ended = true ∧ (l.room ≠ some 0 → Session.leaveTaking reason ∈ l.handed)
  /-- As long as the connection runs, nobody hears that it is over. -/
  underway : l.ended = false →
    l.engine.session.Underway ∧ Event.closings (trace.flatMap Entry.fired) = 0
  /-- When it is over, all hear of it once, and nothing is left of users and channels. -/
  atEnd : l.ended = true → l.engine.session.Over ∧ Event.closings (trace.flatMap Entry.fired) = 1

/-- Whatever a link attends to and in whatever order, what it queues goes to the writer in order and
without loss while the writer takes lines; requests are served in the order in which they came, and
our leave is given to the writer after all that was asked for before it; and the connection ends
once, with nothing known of the network any more. -/
theorem orderly_of_run (run : Run e trace l) : Orderly e trace l := by
  have h := kept_of_run run
  have hEmptied : l.ended = true → l.room ≠ some 0 → l.handed = queued e trace := by
    intro hOver hRoom
    have hWhole := h.conveys.whole hRoom
    rwa [h.sound.emptied hOver hRoom, List.append_nil] at hWhole
  refine ⟨h.conveys.handed, h.conveys.whole, h.conveys.handed_flush, hEmptied, h.inOrder, h.opening,
    fun _ _ _ => h.queued_of_served, fun reason hIn => ?_, fun hRunning => ?_, fun hOver => ?_⟩
  · have hOver := h.last _ hIn rfl
    refine ⟨hOver, fun hRoom => ?_⟩
    obtain ⟨earlier, later, hServed⟩ := List.append_of_mem hIn
    obtain ⟨before, after, hQueued, -⟩ := h.queued_of_served hServed
    rw [hEmptied hOver hRoom, hQueued]
    exact List.mem_append_right _ List.mem_cons_self
  · refine ⟨h.sound.underway hRunning, ?_⟩
    rw [h.closings, hRunning]
    rfl
  · have hSuits := h.sound.suits
    rw [hOver] at hSuits
    refine ⟨hSuits, ?_⟩
    rw [h.closings, hOver]
    rfl

/-- A line and then our leave, asked for before the first turn. -/
theorem orderly_of_run_of_leave :
    ∃ (e : Engine Unit) (trace : List Entry) (l : Link Unit), Run e trace l ∧ Orderly e trace l ∧
      l.ended = true ∧ l.room = none ∧
      l.handed = ["NICK slirc", "USER slirc 0 * :slirc-client", "NAMES", "QUIT :bye"] := by
  let e : Engine Unit := ⟨Session.new {} fun _ => .standard, Listeners.empty, (), []⟩
  have going : Link.start 9 e = .ok (some _) := rfl
  have run := Run.start going
  have run := run.step (.post (r := .raw "NAMES") rfl)
  have run := run.step (.post (r := .disconnect "bye") rfl)
  have run := run.step (.turn 9 ⟨0, 0⟩ .request rfl)
  have run := run.step (.turn 9 ⟨0, 0⟩ .request rfl)
  exact ⟨e, _, _, run, orderly_of_run run, rfl, rfl, rfl⟩

end Run

end Link

end Irc
