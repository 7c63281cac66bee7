import Irc.Proofs.Engine.Reading
import Irc.Proofs.Engine.Teardown
import Irc.Proofs.Session.Waking
/-! What is read after the end of a connection, such as the rest of a buffer. The connection stays
ended whatever comes, but lines are still dealt with, and some of them bring users and channels
back, or are answered. -/
namespace Irc

theorem Session.over_iff {s : Session} : s.Over ↔ s.phase = .disconnected ∧ s.network.Blank :=
  ⟨fun h => ⟨h.phase, h.users, h.channels, h.own⟩, fun h => ⟨h.1, h.2.users, h.2.channels, h.2.own⟩⟩

namespace Engine

variable {μ : Type} {fuel : Nat} {e : Engine μ} {t : Turn μ}

/-- After some steps the session is that of the last one. -/
theorem Performs.session {steps : List Step} (h : Performs e steps t) :
    t.engine.session = (steps.getLast?.map Step.session).getD e.session := by
  induction h with
  | nil e => rfl
  | @cons e step rest t u first next ih =>
      rw [ih, first.session, List.getLast?_cons]
      cases rest.getLast? <;> rfl

/-- Reading texts is what the session does with them, step by step. -/
theorem performs_of_readAll {texts : List (String × Moment)} (h : e.readAll fuel texts = some t) :
    Performs e (e.session.reading texts) t := by
  induction texts generalizing e t with
  | nil =>
      cases h
      exact .nil e
  | cons text rest ih =>
      obtain ⟨raw, now⟩ := text
      obtain ⟨first, hFirst, hThen⟩ := Option.bind_eq_some_iff.mp h
      obtain ⟨next, hNext, rfl⟩ := Option.map_eq_some_iff.mp hThen
      have hDelivers := delivers_of_perform hFirst
      have hRest := ih hNext
      rw [hDelivers.session] at hRest
      exact .cons hDelivers hRest

/-- Reading texts announces no lines by its own events. -/
theorem silent_reading (s : Session) (texts : List (String × Moment)) :
    ∀ step ∈ s.reading texts, step.events.filterMap Event.sent? = [] := by
  induction texts generalizing s with
  | nil => exact fun _ hIn => by cases hIn
  | cons text rest ih => exact List.forall_mem_cons.mpr ⟨(s.events_dispatch _ _).1, ih _⟩

/-- Texts are read to the end if listeners come to an end of asking for lines. -/
theorem exists_readAll_of_settle (h : e.listeners.Settle) (texts : List (String × Moment)) :
    ∃ fuel t, e.readAll fuel texts = some t := by
  induction texts generalizing e with
  | nil => exact ⟨0, ⟨[], e⟩, rfl⟩
  | cons text rest ih =>
      obtain ⟨raw, now⟩ := text
      obtain ⟨few, first, hFirst⟩ := exists_perform_of_settle h (e.session.dispatch raw now)
      have hStill : first.engine.listeners.Settle := (delivers_of_perform hFirst).listeners ▸ h
      obtain ⟨more, next, hNext⟩ := ih hStill
      have hMore : e.dispatch (few + more) raw now = some first :=
        fireAll_mono hFirst (Nat.le_add_right few more)
      refine ⟨few + more, ⟨first.fired ++ next.fired, next.engine⟩, ?_⟩
      simp only [readAll, hMore, Option.bind_some, Turn.andThen,
        readAll_mono hNext (Nat.le_add_left more few), Option.map_some]

/-- Texts that are read after the end of a connection, whoever listens: it stays ended. If none of
them wakes it, still nothing is known of users, of channels and of us after each of them, and none
is answered; if one does, it is not so. -/
theorem readAll_of_over (hOver : e.session.Over) (hEnded : e.session.lifecycle.ended = true)
    (texts : List (String × Moment)) :
    (∀ fuel t, e.readAll fuel texts = some t →
      Performs e (e.session.reading texts) t ∧ t.engine.outbound = e.outbound ++ t.announced ∧
      t.engine.session.lifecycle = ⟨.disconnected, true⟩ ∧
      (e.network.support.AllPass texts → t.engine.session.Over)) ∧
    (∀ step ∈ e.session.reading texts, step.session.lifecycle = ⟨.disconnected, true⟩) ∧
    ((∀ step ∈ e.session.reading texts, step.session.Over ∧ step.lines = []) ↔
      e.network.support.AllPass texts) ∧
    (e.listeners.Settle → ∃ fuel t, e.readAll fuel texts = some t) := by
  obtain ⟨hPhase, hBlank⟩ := Session.over_iff.mp hOver
  have hLife : e.session.lifecycle = ⟨.disconnected, true⟩ := by
    rw [← hEnded, ← hPhase]
    rfl
  have hStays := Session.lifecycle_reading hPhase texts
  have hPasses : (∀ step ∈ e.session.reading texts, step.session.Over ∧ step.lines = []) ↔
      e.network.support.AllPass texts := by
    rw [network, ← Session.reading_passes_iff hBlank hPhase texts]
    refine forall₂_congr fun step hIn => and_congr_left' ?_
    have hStill : step.session.phase = .disconnected :=
      (congrArg Lifecycle.phase (hStays step hIn)).trans hPhase
    rw [Session.over_iff, and_iff_right hStill]
  refine ⟨fun fuel t h => ?_, fun step hIn => (hStays step hIn).trans hLife, hPasses,
    fun hSettle => exists_readAll_of_settle hSettle texts⟩
  have hPerforms := performs_of_readAll h
  have hFinal : t.engine.session = e.session ∨
      ∃ step ∈ e.session.reading texts, t.engine.session = step.session := by
    rw [hPerforms.session]
    cases hLast : (e.session.reading texts).getLast? with
    | none => exact .inl rfl
    | some step => exact .inr ⟨step, List.mem_of_getLast? hLast, rfl⟩
  refine ⟨hPerforms, hPerforms.outbound_eq (silent_reading e.session texts), ?_, fun hAll => ?_⟩
  · rcases hFinal with hSame | ⟨step, hIn, hSame⟩
    · rw [hSame, hLife]
    · rw [hSame, hStays step hIn, hLife]
  · rcases hFinal with hSame | ⟨step, hIn, hSame⟩
    · rwa [hSame]
    · rw [hSame]
      exact (hPasses.mpr hAll step hIn).1

/-- Names in a channel that is not known any more, and someone who leaves the network. -/
theorem readAll_of_over_of_names :
    let e : Engine Unit := ⟨Session.new {} fun _ => .standard, Listeners.empty, (), []⟩
    let texts : List (String × Moment) :=
      [(":irc 353 me = #c :alice me", ⟨0, 0⟩), (":alice!u@h QUIT :bye", ⟨1, 0⟩)]
    ∃ u v w, e.connecting 9 = .ok (some u) ∧ u.engine.connected 9 = .ok (some v) ∧
      v.engine.disconnect 9 "bye" = some w ∧
      ∃ fuel t, w.engine.readAll fuel texts = some t ∧ t.engine.session.Over := by
  intro e texts
  have hPass : Support.empty.AllPass texts := by
    let names : Line := ⟨[], some "irc", "353", ["me", "=", "#c", "alice me"]⟩
    have hNames : Picture.lineOf? ":irc 353 me = #c :alice me" = some names := by decide +kernel
    have hCode : names.numeric? = some 353 := by decide +kernel
    have hQuit : Picture.lineOf? ":alice!u@h QUIT :bye" =
        some ⟨[], some "alice!u@h", "QUIT", ["bye"]⟩ := by decide +kernel
    have hListed : ListNumeric.ofCode? Support.empty 353 = none := by decide +kernel
    refine ⟨?_, ?_, trivial⟩
    · rw [hNames]
      simp only [Option.mem_some_iff, forall_eq']
      rw [Line.wakes_iff_of_numeric hCode, hListed]
      simp
    · rw [hNames, hQuit]
      simp only [Option.mem_some_iff, forall_eq']
      rw [Line.wakes_iff_of_word (by decide +kernel)]
      simp
  have hLast : ∀ w : Engine Unit, w.session.Over → w.session.lifecycle.ended = true →
      w.network.support = Support.empty → w.listeners = Listeners.empty →
      ∃ fuel t, w.readAll fuel texts = some t ∧ t.engine.session.Over := by
    intro w hOver hEnded hSupport hListeners
    have hReads := readAll_of_over hOver hEnded texts
    have hSettle : w.listeners.Settle := settle_of_silent fun _ _ _ => by rw [hListeners]; rfl
    obtain ⟨fuel, t, hRead⟩ := hReads.2.2.2 hSettle
    exact ⟨fuel, t, hRead, (hReads.1 fuel t hRead).2.2.2 (hSupport ▸ hPass)⟩
  exact ⟨_, _, _, rfl, rfl, rfl, hLast _ ⟨rfl, ⟨rfl, rfl⟩, rfl, rfl⟩ rfl rfl rfl⟩

/-- A greeting gives a connection that is over an identity again, and a PING is answered. -/
theorem readAll_rouses :
    let e : Engine Unit := ⟨Session.new {} fun _ => .standard, Listeners.empty, (), []⟩
    let texts : List (String × Moment) :=
      [(":irc.test 001 me :Welcome", ⟨0, 0⟩), ("PING :x", ⟨1, 0⟩)]
    ∃ u v w, e.connecting 9 = .ok (some u) ∧ u.engine.connected 9 = .ok (some v) ∧
      v.engine.disconnect 9 "bye" = some w ∧ w.engine.session.Over ∧
      (w.engine.takeOutbound.2.readAll 9 texts).map (fun t =>
        (t.engine.phase, t.engine.network.own, t.engine.network.roster.size, t.engine.outbound)) =
          some (.disconnected, some 0, 1, ["PONG :x"]) := by
  intro e texts
  exact ⟨_, _, _, rfl, rfl, rfl, ⟨rfl, ⟨rfl, rfl⟩, rfl, rfl⟩, by decide +kernel⟩

end Engine

end Irc
