import Irc.Proofs.Session.Attempts
/-! How we come by a nickname. Each refusal is answered by another nickname: first the second one of
the settings, and from then on the last one with an underscore. So the nicknames get longer, and
only the first one of the settings can come to be asked for again, where it is what the second one
becomes. -/
namespace Irc

def underscores (k : Nat) : String := String.ofList (List.replicate k '_')

@[simp] theorem toList_underscores (k : Nat) : (underscores k).toList = List.replicate k '_' :=
  String.toList_ofList

theorem append_underscores_zero (nick : String) : nick ++ underscores 0 = nick := by
  have hNone : underscores 0 = "" := rfl
  rw [hNone, String.append_empty]

theorem append_underscores_succ (nick : String) (k : Nat) :
    nick ++ underscores (k + 1) = nick ++ underscores k ++ "_" := by
  have hLast : "_".toList = ['_'] := rfl
  simp only [← String.toList_inj, String.toList_append, toList_underscores, hLast,
    List.append_assoc, List.replicate_succ']

/-- Nicknames that compare as equal are equally long. -/
theorem CaseMapping.length_eq_of_equal {m : CaseMapping} {a b : String} (h : m.equal a b = true) :
    a.toList.length = b.toList.length := by
  have hFold := congrArg (List.length ∘ String.toList) ((equal_iff m a b).mp h)
  simpa using hFold

namespace Config

/-- The nickname to ask for after a number of refusals. -/
def candidate (c : Config) : Nat → String
  | 0 => c.nickname
  | k + 1 =>
    match c.altNickname with
    | some alt => alt ++ underscores k
    | none => c.nickname ++ underscores (k + 1)

variable {c : Config}

/-- With a second nickname, that one gets longer. -/
theorem candidate_of_some {alt : String} (h : c.altNickname = some alt) (k : Nat) :
    c.candidate (k + 1) = alt ++ underscores k := by rw [candidate, h]

/-- Without one, the first does. -/
theorem candidate_of_none (h : c.altNickname = none) (k : Nat) :
    c.candidate k = c.nickname ++ underscores k := by
  cases k with
  | zero => rw [candidate, append_underscores_zero]
  | succ k => rw [candidate, h]

/-- From the second on, each candidate is the one before it with an underscore. -/
theorem candidate_succ_succ (c : Config) (k : Nat) :
    c.candidate (k + 2) = c.candidate (k + 1) ++ "_" := by
  cases h : c.altNickname with
  | none => rw [candidate_of_none h, candidate_of_none h, append_underscores_succ]
  | some alt => rw [candidate_of_some h, candidate_of_some h, append_underscores_succ]

/-- Of the nicknames before it, one that is asked for later can only be the first one, and only
from the third one on and if there is a second one in the settings. -/
theorem equal_candidate_iff {m : CaseMapping}
    (hApart : ∀ alt ∈ c.altNickname, ¬m.equal alt c.nickname = true) {i j : Nat} (h : j ≤ i) :
    m.equal (c.candidate (i + 1)) (c.candidate j) = true ↔
      j = 0 ∧ 1 ≤ i ∧ c.altNickname.isSome = true ∧
        m.equal (c.candidate (i + 1)) c.nickname = true := by
  constructor
  · intro hSame
    have hLength := CaseMapping.length_eq_of_equal hSame
    cases hAlt : c.altNickname with
    | none =>
        rw [candidate_of_none hAlt, candidate_of_none hAlt] at hLength
        simp only [String.toList_append, List.length_append, toList_underscores,
          List.length_replicate] at hLength
        omega
    | some alt =>
        rw [candidate_of_some hAlt] at hLength
        cases j with
        | zero =>
            refine ⟨rfl, Nat.one_le_iff_ne_zero.mpr ?_, rfl, hSame⟩
            rintro rfl
            rw [candidate_of_some hAlt, append_underscores_zero] at hSame
            exact hApart alt hAlt hSame
        | succ j =>
            rw [candidate_of_some hAlt] at hLength
            simp only [String.toList_append, List.length_append, toList_underscores,
              List.length_replicate] at hLength
            omega
  · rintro ⟨rfl, _, _, hSame⟩
    exact hSame

end Config

inductive NickTalk
  /-- The server refuses a nickname. -/
  | refused (nick : String)
  /-- We ask for one. -/
  | asked (nick : String)
deriving DecidableEq

/-- The server may refuse a nickname by these numerics. -/
def Line.IsRefusal (line : Line) : Prop := line.numeric? = some 433 ∨ line.numeric? = some 437

instance (line : Line) : Decidable line.IsRefusal := inferInstanceAs (Decidable (_ ∨ _))

def Line.refused? (line : Line) : Option String := if line.IsRefusal then line.param? 1 else none

def requested? (line : String) : Option String :=
  match line.toList with
  | 'N' :: 'I' :: 'C' :: 'K' :: ' ' :: nick => some (String.ofList nick)
  | _ => none

theorem requested?_nick (nick : String) : requested? ("NICK " ++ nick) = some nick := by
  have hLine : ("NICK " ++ nick).toList = 'N' :: 'I' :: 'C' :: 'K' :: ' ' :: nick.toList :=
    String.toList_append
  rw [requested?, hLine]
  exact congrArg some String.ofList_toList

/-- A line that begins with another letter asks for none. -/
theorem requested?_other {line : String} {first : Char} {rest : List Char}
    (hLine : line.toList = first :: rest) (hFirst : first ≠ 'N') : requested? line = none := by
  unfold requested?
  split
  case h_1 hNick => exact absurd (List.cons.inj (hLine.symm.trans hNick)).1 hFirst
  case h_2 => rfl

theorem requested?_pong (text : String) : requested? ("PONG :" ++ text) = none := by
  have hLine : ("PONG :" ++ text).toList = 'P' :: ("ONG :".toList ++ text.toList) :=
    String.toList_append
  exact requested?_other hLine (by decide)

theorem requested?_pass (password : String) : requested? ("PASS " ++ password) = none := by
  have hLine : ("PASS " ++ password).toList = 'P' :: ("ASS ".toList ++ password.toList) :=
    String.toList_append
  exact requested?_other hLine (by decide)

theorem requested?_user (username realname : String) :
    requested? ("USER " ++ username ++ " 0 * :" ++ realname) = none := by
  have hLine : ("USER " ++ username ++ " 0 * :" ++ realname).toList =
      'U' :: ("SER ".toList ++ username.toList ++ " 0 * :".toList ++ realname.toList) := by
    simp only [String.toList_append]
    rfl
  exact requested?_other hLine (by decide)

/-- Of the lines of registration one asks for a nickname: the first of the settings. -/
theorem filterMap_registrationLines (c : Config) :
    (Session.registrationLines c).filterMap requested? = [c.nickname] := by
  rw [Session.registrationLines, List.filterMap_append,
    List.filterMap_cons_some (requested?_nick _), List.filterMap_cons_none (requested?_user _ _),
    List.filterMap_nil]
  cases c.password with
  | none => rfl
  | some password =>
      rw [Option.map_some, Option.toList_some, List.filterMap_cons_none (requested?_pass password)]
      rfl

namespace Session

variable {s : Session} {line : Line} {now : Moment}

/-- What is said while a session reads texts. -/
def talk (s : Session) : List (String × Moment) → List NickTalk
  | [] => []
  | (raw, now) :: rest =>
    ((Picture.lineOf? raw).bind Line.refused?).toList.map .refused ++
      (((s.dispatch raw now).lines.filterMap requested?).map .asked ++
        (s.dispatch raw now).session.talk rest)

/-- The server neither greets us nor announces what it supports, and each refusal is about the
nickname that we have asked for last. -/
def Negotiates (s : Session) : List (String × Moment) → Prop
  | [] => True
  | (raw, now) :: rest =>
    (∀ line ∈ Picture.lineOf? raw, line.numeric? ≠ some 1 ∧ line.numeric? ≠ some 5 ∧
      (line.IsRefusal → line.param? 1 = some s.attemptedNick)) ∧
    (s.dispatch raw now).session.Negotiates rest

instance decidableNegotiates (s : Session) : (texts : List (String × Moment)) →
    Decidable (s.Negotiates texts)
  | [] => .isTrue trivial
  | (raw, now) :: rest =>
    haveI := decidableNegotiates (s.dispatch raw now).session rest
    inferInstanceAs (Decidable (_ ∧ _))

/-- What is said in a number of rounds, each a refusal and an answer, after earlier ones. -/
def rounds (c : Config) (k : Nat) : Nat → List NickTalk
  | 0 => []
  | n + 1 => .refused (c.candidate k) :: .asked (c.candidate (k + 1)) :: rounds c (k + 1) n

/-- Before a nickname is asked for, all nicknames before it have been refused, and no others. -/
theorem rounds_split {c : Config} {k n : Nat} {earlier later : List NickTalk} {nick : String}
    (h : rounds c k n = earlier ++ .asked nick :: later) :
    ∃ i, nick = c.candidate (k + i + 1) ∧
      ∀ old, .refused old ∈ earlier ↔ ∃ j ≤ i, old = c.candidate (k + j) := by
  induction n generalizing k earlier with
  | zero => simp [rounds] at h
  | succ n ih =>
      cases earlier with
      | nil => cases h
      | cons first earlier =>
          obtain ⟨rfl, hAfter⟩ := List.cons.inj h
          cases earlier with
          | nil =>
              cases hAfter
              exact ⟨0, rfl, by simp⟩
          | cons second earlier =>
              obtain ⟨rfl, hLater⟩ := List.cons.inj hAfter
              obtain ⟨i, rfl, hEarlier⟩ := ih hLater
              have hShift (j : Nat) : c.candidate (k + 1 + j) = c.candidate (k + (j + 1)) := by
                rw [Nat.add_right_comm k 1 j, Nat.add_assoc]
              refine ⟨i + 1, hShift (i + 1), fun old => ?_⟩
              simp only [List.mem_cons, NickTalk.refused.injEq, reduceCtorEq, false_or, hEarlier]
              constructor
              · rintro (rfl | ⟨j, hj, rfl⟩)
                · exact ⟨0, Nat.zero_le _, rfl⟩
                · exact ⟨j + 1, Nat.succ_le_succ hj, hShift j⟩
              · rintro ⟨j, hj, rfl⟩
                cases j with
                | zero => exact .inl rfl
                | succ j => exact .inr ⟨j, Nat.le_of_succ_le_succ hj, (hShift j).symm⟩

/-- A session under certain settings and a mapping that has been refused a number of times. -/
structure RefusedTimes (c : Config) (m : CaseMapping) (k : Nat) (s : Session) : Prop where
  config : s.config = c
  phase : s.phase = .registering
  attempt : s.attempt = (c.candidate k, k != 0 && c.altNickname.isSome)
  pending : s.supportPending = false
  own : s.network.own = none
  support : s.network.support = Support.empty
  mapping : s.network.mapping = m

section RefusedTimes

variable {c : Config} {m : CaseMapping} {k : Nat}

/-- Being heard of is no refusal. -/
theorem RefusedTimes.noticing (h : s.RefusedTimes c m k) (now : Moment) (line : Line) :
    ((s.noticing now).settledFor line).RefusedTimes c m k := by
  have hSettled : (s.noticing now).settledFor line = s.noticing now := by
    rw [settledFor, if_neg]
    rw [show (s.noticing now).supportPending = false from h.pending]
    exact Bool.false_ne_true
  rw [hSettled]
  exact ⟨h.config, h.phase, h.attempt, h.pending, h.own, h.support, h.mapping⟩

theorem RefusedTimes.phase_ne (h : s.RefusedTimes c m k) : s.phase ≠ .connected := by
  rw [h.phase]
  decide

/-- Another line changes nothing of this, and we ask for no nickname. -/
theorem RefusedTimes.dispatch_other (h : s.RefusedTimes c m k) {raw : String}
    (hLine : Picture.lineOf? raw = some line) (hGreeting : line.numeric? ≠ some 1)
    (hSupport : line.numeric? ≠ some 5) (hRefusal : ¬line.IsRefusal) (now : Moment) :
    (s.dispatch raw now).session.RefusedTimes c m k ∧
      (s.dispatch raw now).lines.filterMap requested? = [] := by
  let settled := (s.noticing now).settledFor line
  have hSettled : settled.RefusedTimes c m k := h.noticing now line
  have hSession : (s.dispatch raw now).session = (settled.handled line now).session := by
    rw [s.dispatch_eq_handled now hLine]
    rfl
  have hDoes := settled.does_handled line now
  have hAnnounced : ¬line.Announces settled.network.support 5 := fun hIs => hSupport hIs.1
  have hAnswers := answers_dispatch (s := s) now (read_of_lineOf? hLine)
  constructor
  · constructor
    case config => exact hAnswers.config.trans h.config
    case phase =>
      rcases s.lifecycle_dispatch raw now with hSame | ⟨greeting, hRead, hCode, _⟩
      · exact (congrArg Lifecycle.phase hSame).trans h.phase
      · rw [read_of_lineOf? hLine] at hRead
        cases hRead
        exact absurd hCode hGreeting
    case attempt =>
      rw [hSession]
      exact (attempt_handled hSettled.own line now (not_or.mp hRefusal)).trans hSettled.attempt
    case pending =>
      rw [hSession]
      exact (hDoes.pending hAnnounced).trans hSettled.pending
    case own =>
      rw [hSession]
      exact hDoes.deals.own_eq_none hGreeting hSettled.own
    case support =>
      rw [hSession, support_handled, Support.hear, if_neg hAnnounced]
      exact hSettled.support
    case mapping =>
      rw [hSession]
      exact hDoes.deals.mapping_eq.trans hSettled.mapping
  · rw [hAnswers.lines_eq, answer]
    cases hNumeric : line.numeric? with
    | some code =>
        have hOther : ¬(ListNumeric.ofCode? settled.network.support code = none ∧
            (code = 433 ∨ code = 437)) := by
          rintro ⟨_, rfl | rfl⟩
          · exact hRefusal (.inl hNumeric)
          · exact hRefusal (.inr hNumeric)
        exact congrArg (List.filterMap requested?) (if_neg hOther)
    | none =>
        have hNotOurs : settled.ownJoin? line = none := by
          unfold ownJoin? Network.isOwn
          rw [hSettled.own]
          split <;> rfl
        show (settled.commandAnswer line _).filterMap requested? = []
        rw [commandAnswer, hNotOurs]
        by_cases hPing : line.command = "PING"
        · rw [if_pos hPing, List.filterMap_cons_none (requested?_pong _)]
          rfl
        · rw [if_neg hPing, Option.elim_none, ite_self]
          rfl

/-- A text that is no line does not change how often we were refused. -/
theorem RefusedTimes.dispatch_unreadable (h : s.RefusedTimes c m k) {raw : String}
    (hLine : Picture.lineOf? raw = none) (now : Moment) :
    (s.dispatch raw now).session.RefusedTimes c m k ∧ (s.dispatch raw now).lines = [] := by
  obtain ⟨error, hStep⟩ := s.dispatch_of_lineOf?_eq_none now hLine
  rw [hStep]
  exact ⟨⟨h.config, h.phase, h.attempt, h.pending, h.own, h.support, h.mapping⟩, rfl⟩

/-- After so many refusals the next candidate is asked for. -/
theorem RefusedTimes.nextNick_eq (h : s.RefusedTimes c m k)
    (hApart : ∀ alt ∈ c.altNickname, ¬m.equal alt c.nickname = true) :
    s.nextNick s.attemptedNick = (c.candidate (k + 1), c.altNickname.isSome) := by
  obtain ⟨hNick, hTried⟩ := Prod.mk.inj h.attempt
  have hSame : ∀ a b, s.network.sameName a b = m.equal a b := fun a b => by
    rw [Network.sameName, h.mapping]
  rw [nextNick, h.config, hNick, hTried]
  cases hAlt : c.altNickname with
  | none =>
      rw [Config.candidate_of_none hAlt, Config.candidate_of_none hAlt, append_underscores_succ,
        Option.isSome_none, Bool.and_false]
  | some alt =>
      cases k with
      | zero =>
          have hOther : m.equal alt c.nickname = false := Bool.eq_false_iff.mpr (hApart alt hAlt)
          rw [Config.candidate_of_some hAlt, append_underscores_zero]
          simp [hSame, Config.candidate, hOther]
      | succ k =>
          rw [c.candidate_succ_succ]
          rfl

/-- A refusal is answered by the next nickname. -/
theorem RefusedTimes.dispatch_refusal (h : s.RefusedTimes c m k)
    (hApart : ∀ alt ∈ c.altNickname, ¬m.equal alt c.nickname = true) {raw : String}
    (hLine : Picture.lineOf? raw = some line) (hRefusal : line.IsRefusal)
    (hNames : line.param? 1 = some s.attemptedNick) (now : Moment) :
    (s.dispatch raw now).session.RefusedTimes c m (k + 1) ∧
      (s.dispatch raw now).lines = ["NICK " ++ c.candidate (k + 1)] := by
  let settled := (s.noticing now).settledFor line
  have hSettled : settled.RefusedTimes c m k := h.noticing now line
  have hHandled : ∃ events, settled.handled line now = (settled.tells events).andThen
      fun s => s.nickInUse line := by
    rcases hRefusal with hCode | hCode
    · have hTaken : line.Announces settled.network.support 433 :=
        ⟨hCode, by rw [hSettled.support]; rfl⟩
      exact ⟨_, handled_of_announces (n := .nicknameInUse) now hTaken⟩
    · have hTaken : line.Announces settled.network.support 437 :=
        ⟨hCode, by rw [hSettled.support]; rfl⟩
      exact ⟨_, handled_of_announces (n := .unavailResource) now hTaken⟩
  obtain ⟨events, hHandled⟩ := hHandled
  have hNick : settled.attemptedNick = s.attemptedNick :=
    congrArg Prod.fst (hSettled.attempt.trans h.attempt.symm)
  have hRegistered : ¬settled.isRegistered = true :=
    fun hIs => hSettled.phase_ne (beq_iff_eq.mp hIs)
  have hAnswer : settled.nickInUse line =
      { session := { settled with
          attemptedNick := c.candidate (k + 1), triedAlt := c.altNickname.isSome }
        events := [.nickInUse settled.attemptedNick]
        lines := ["NICK " ++ c.candidate (k + 1)] } := by
    simp only [nickInUse, hNames, ← hNick, Option.getD_some, if_neg hRegistered,
      hSettled.nextNick_eq hApart]
  have hStep : s.dispatch raw now =
      (settled.tells (.dataIn (bare raw) :: s.settlement line)).andThen fun s =>
        s.handled line now := s.dispatch_eq_handled now hLine
  have hSession : (s.dispatch raw now).session = (settled.nickInUse line).session := by
    rw [hStep, Step.session_andThen, session_tells, hHandled]
    rfl
  have hLines : (s.dispatch raw now).lines = (settled.nickInUse line).lines := by
    have hSame : (s.dispatch raw now).lines = (settled.handled line now).lines := by
      rw [hStep]
      rfl
    rw [hSame, hHandled]
    rfl
  rw [hSession, hLines, hAnswer]
  exact ⟨⟨hSettled.config, hSettled.phase, rfl, hSettled.pending, hSettled.own, hSettled.support,
    hSettled.mapping⟩, rfl⟩

/-- What is said in a negotiation are rounds. -/
theorem RefusedTimes.talk_eq (h : s.RefusedTimes c m k)
    (hApart : ∀ alt ∈ c.altNickname, ¬m.equal alt c.nickname = true)
    {texts : List (String × Moment)} (hTexts : s.Negotiates texts) :
    ∃ n, s.talk texts = rounds c k n := by
  induction texts generalizing k s with
  | nil => exact ⟨0, rfl⟩
  | cons text rest ih =>
      obtain ⟨raw, now⟩ := text
      obtain ⟨hFirst, hRest⟩ := hTexts
      rw [talk]
      cases hLine : Picture.lineOf? raw with
      | none =>
          obtain ⟨hStill, hLines⟩ := h.dispatch_unreadable hLine now
          rw [hLines]
          exact ih hStill hRest
      | some line =>
          obtain ⟨hGreeting, hSupport, hNames⟩ := hFirst line hLine
          by_cases hRefusal : line.IsRefusal
          · have hNick := hNames hRefusal
            obtain ⟨hMore, hLines⟩ := h.dispatch_refusal hApart hLine hRefusal hNick now
            obtain ⟨n, hTalk⟩ := ih hMore hRest
            refine ⟨n + 1, ?_⟩
            have hAttempt : s.attemptedNick = c.candidate k := congrArg Prod.fst h.attempt
            rw [hTalk, hLines, Option.bind_some, Line.refused?, if_pos hRefusal, hNick, hAttempt,
              List.filterMap_cons_some (requested?_nick _)]
            rfl
          · obtain ⟨hStill, hNothing⟩ := h.dispatch_other hLine hGreeting hSupport hRefusal now
            rw [hNothing, Option.bind_some, Line.refused?, if_neg hRefusal]
            exact ih hStill hRest

end RefusedTimes

/-- A session that has just registered is in a negotiation, whatever the mapping. -/
theorem refusedTimes_connected {c : Config} {dialectOf : String → ListDialect}
    {opening opened : Step} (hOpening : (Session.new c dialectOf).connecting = .ok opening)
    (hOpened : opening.session.connected = .ok opened) (m : CaseMapping) :
    (opened.session.withNetwork (opened.session.network.setMapping m)).RefusedTimes c m 0 ∧
      opened.lines.filterMap requested? = [c.nickname] := by
  cases hOpening
  cases hOpened
  have hBlank : Network.new.Blank := ⟨⟨rfl, rfl⟩, rfl, rfl⟩
  refine ⟨⟨rfl, rfl, rfl, rfl, (hBlank.setMapping m).own, ?_, Network.new.mapping_setMapping m⟩, ?_⟩
  · show (Network.new.setMapping m).support = Support.empty
    cases m <;> rfl
  · exact filterMap_registrationLines c

/-- Where the two nicknames of the settings are different ones, we begin with the first and then
go from each refusal to the next nickname. A nickname that equals a refused one is asked for
exactly if it is the second one with underscores and equals the first. -/
theorem asks_again_iff {c : Config} {dialectOf : String → ListDialect} {opening opened : Step}
    (hOpening : (Session.new c dialectOf).connecting = .ok opening)
    (hOpened : opening.session.connected = .ok opened) (m : CaseMapping)
    (hApart : ∀ alt ∈ c.altNickname, ¬m.equal alt c.nickname = true)
    {texts : List (String × Moment)}
    (hTexts : (opened.session.withNetwork (opened.session.network.setMapping m)).Negotiates texts) :
    let talk := (opened.session.withNetwork (opened.session.network.setMapping m)).talk texts
    opened.lines.filterMap requested? = [c.nickname] ∧ (∃ n, talk = rounds c 0 n) ∧
      ∀ earlier nick later, talk = earlier ++ .asked nick :: later →
        ((∃ old, .refused old ∈ earlier ∧ m.equal nick old = true) ↔
          ∃ alt k, c.altNickname = some alt ∧ 1 ≤ k ∧ nick = alt ++ underscores k ∧
            m.equal nick c.nickname = true) := by
  obtain ⟨hStart, hFirst⟩ := refusedTimes_connected hOpening hOpened m
  obtain ⟨n, hTalk⟩ := hStart.talk_eq hApart hTexts
  refine ⟨hFirst, ⟨n, hTalk⟩, fun earlier nick later hSplit => ?_⟩
  obtain ⟨i, rfl, hEarlier⟩ := rounds_split (hTalk.symm.trans hSplit)
  simp only [Nat.zero_add] at hEarlier ⊢
  constructor
  · rintro ⟨old, hOld, hSame⟩
    obtain ⟨j, hj, rfl⟩ := (hEarlier old).mp hOld
    obtain ⟨rfl, hi, hAlt, hAgain⟩ := (Config.equal_candidate_iff hApart hj).mp hSame
    obtain ⟨alt, hAlt⟩ := Option.isSome_iff_exists.mp hAlt
    exact ⟨alt, i, hAlt, hi, Config.candidate_of_some hAlt i, hAgain⟩
  · rintro ⟨alt, k, hAlt, hk, _, hSame⟩
    exact ⟨c.nickname, (hEarlier c.nickname).mpr ⟨0, Nat.zero_le i, rfl⟩, hSame⟩

/-- Two refusals of different nicknames: nothing is asked for again. -/
theorem asks_again_iff_of_two_refusals :
    let c : Config := { nickname := "me", altNickname := some "you" }
    let texts : List (String × Moment) := [(":irc.test 433 * me :In use", ⟨0, 0⟩),
      (":irc.test NOTICE * :Wait", ⟨1, 0⟩), (":irc.test 437 * you :Unavailable", ⟨2, 0⟩)]
    ∃ opening opened, (Session.new c fun _ => .standard).connecting = .ok opening ∧
      opening.session.connected = .ok opened ∧
      opened.lines.filterMap requested? = ["me"] ∧
      opened.session.talk texts =
        [.refused "me", .asked "you", .refused "you", .asked "you_"] ∧
      ∀ earlier nick later, opened.session.talk texts = earlier ++ .asked nick :: later →
        ∀ old, .refused old ∈ earlier → ¬CaseMapping.rfc1459.equal nick old = true := by
  intro c texts
  let start : Session := Session.new c fun _ => .standard
  let opening : Step :=
    { start with lifecycle := ⟨.connecting, false⟩ }.tells [.phaseChanged .disconnected .connecting]
  let registering : Session := { start with lifecycle := ⟨.registering, false⟩ }
  have hOpening : start.connecting = .ok opening := rfl
  have hOpened : opening.session.connected =
      .ok ⟨registering, [.phaseChanged .connecting .registering], registrationLines c⟩ := rfl
  have hTexts : registering.Negotiates texts := by decide +kernel
  have hApart : ∀ alt ∈ c.altNickname, ¬CaseMapping.rfc1459.equal alt c.nickname = true := by
    decide +kernel
  obtain ⟨hFirst, _, hAgain⟩ := asks_again_iff hOpening hOpened .rfc1459 hApart hTexts
  refine ⟨_, _, hOpening, hOpened, hFirst, by decide +kernel,
    fun earlier nick later hSplit old hOld hSame => ?_⟩
  obtain ⟨alt, k, hAlt, _, rfl, hMe⟩ := (hAgain earlier nick later hSplit).mp ⟨old, hOld, hSame⟩
  cases hAlt
  have hLength := CaseMapping.length_eq_of_equal hMe
  rw [String.toList_append, List.length_append] at hLength
  exact absurd hLength (by simp +arith [c])

/-- If the second nickname with an underscore is the first one, we ask for that one again. -/
theorem asks_again_for_first_nickname :
    let c : Config := { nickname := "me_", altNickname := some "me" }
    c.validate = .ok c ∧
      ∃ opening opened, (Session.new c fun _ => .standard).connecting = .ok opening ∧
        opening.session.connected = .ok opened ∧
        opened.lines.filterMap requested? = ["me_"] ∧
        opened.session.talk [(":irc.test 433 * me_ :Nickname is already in use", ⟨0, 0⟩),
            (":irc.test 433 * me :Nickname is already in use", ⟨1, 0⟩)] =
          [.refused "me_", .asked "me", .refused "me", .asked "me_"] := by
  intro c
  exact ⟨by decide +kernel, _, _, rfl, rfl, by decide +kernel, by decide +kernel⟩

end Session

end Irc
