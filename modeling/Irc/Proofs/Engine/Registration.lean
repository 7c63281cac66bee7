import Irc.Framing
import Irc.Proofs.Engine.Reading
import Irc.Proofs.Line.RoundTrip
import Irc.Proofs.Text.Utf8
/-! The lines that register us, as the server reads them. A nickname that the settings may have is
one word, so NICK says what it should. Nothing of the sort is asked of the other settings: a
password is sent without a colon, and only a username that is one word and a realname that is one
line arrive as they are. -/
namespace Irc

namespace RawLine

/-- What is read of a line that has been sent. -/
def received (line : String) : Except LineError RawLine :=
  read (Text.Utf8.decode (Framer.encode line))

/-- What the server receives is the line up to its first line break. -/
theorem received_eq (line : String) :
    received line = read (line.toList.takeWhile (!Text.isLineBreak ·) ++ ['\r', '\n']) := by
  have hEnding : [Framer.cr, Framer.lf] = Text.Utf8.encode ['\r', '\n'] := rfl
  rw [received, Framer.encode, hEnding, ← Text.Utf8.encode_append, Text.Utf8.decode_encode]

/-- A command alone before its parameters. -/
theorem read_command {command text ending : List Char} (hNonempty : command ≠ [])
    (hLetters : ∀ c ∈ command, c.isAlphanum = true)
    (hLine : ∀ c ∈ text, Text.isLineBreak c = false)
    (hEnding : ∀ c ∈ ending, Text.isLineBreak c = true) :
    read (command ++ ' ' :: text ++ ending) =
      .ok ⟨none, none, command, paramsAfterSpace text⟩ := by
  obtain ⟨c, rest, rfl⟩ := List.exists_cons_of_ne_nil hNonempty
  obtain ⟨hBlank, hGap, _, hAt, hColon⟩ := plain_of_isAlphanum (hLetters c List.mem_cons_self)
  have hTrim : Text.trimEnd Text.isLineBreak (c :: rest ++ ' ' :: text ++ ending) =
      c :: rest ++ ' ' :: text := by
    refine trimEnd_append hEnding fun d hd => ?_
    rw [List.getLast?_append_of_ne_nil _ (List.cons_ne_nil _ _)] at hd
    rcases List.mem_cons.mp (List.mem_of_getLast? hd) with rfl | hd
    · rfl
    · exact hLine d hd
  have hThere : ¬(c :: rest ++ ' ' :: text).all Text.isBlank = true := by
    intro hAll
    rw [List.all_eq_true.mp hAll c List.mem_cons_self] at hBlank
    cases hBlank
  have hSource : afterTags (c :: (rest ++ ' ' :: text)) = c :: (rest ++ ' ' :: text) := by
    rw [afterTags, splitTags_of_ne hAt]
    exact List.dropWhile_cons_of_neg (Bool.eq_false_iff.mp hGap)
  have hAfter : afterSource (c :: (rest ++ ' ' :: text)) = c :: rest ++ ' ' :: text := by
    rw [afterSource, hSource, splitSource_of_ne hColon]
    exact List.dropWhile_cons_of_neg (Bool.eq_false_iff.mp hGap)
  have hSpace : ¬Char.isAlphanum ' ' = true := by decide
  rw [read, hTrim]
  simp only [if_neg hThere]
  rw [List.cons_append, split_eq, hAfter, hSource, splitTags_of_ne hAt, splitSource_of_ne hColon,
    List.takeWhile_append_of_pos hLetters, List.dropWhile_append_of_pos hLetters,
    List.takeWhile_cons_of_neg hSpace, List.dropWhile_cons_of_neg hSpace, List.append_nil]
  rfl

/-- What arrives of a command and the text after it: the parameters on its first line. -/
theorem received_command {line : String} {command text : List Char}
    (hLine : line.toList = command ++ ' ' :: text) (hNonempty : command ≠ [])
    (hLetters : ∀ c ∈ command, c.isAlphanum = true) :
    received line =
      .ok ⟨none, none, command, paramsAfterSpace (text.takeWhile (!Text.isLineBreak ·))⟩ := by
  have hPlain : ∀ c ∈ command, (!Text.isLineBreak c) = true := by
    intro c hc
    rw [(plain_of_isAlphanum (hLetters c hc)).2.2.1]
    rfl
  rw [received_eq, hLine, List.takeWhile_append_of_pos hPlain, List.takeWhile_cons_of_pos (by rfl)]
  refine read_command hNonempty hLetters (fun c hc => ?_) (by simp [Text.isLineBreak])
  simpa using List.mem_takeWhile_imp hc

/-- A line with a plain command arrives with these parameters exactly if the text behind the command
is read as them. -/
theorem received_eq_iff {line : String} {command text : List Char} {params : List (List Char)}
    (hLine : line.toList = command ++ ' ' :: text) (hNonempty : command ≠ [])
    (hLetters : ∀ c ∈ command, c.isAlphanum = true) :
    received line = .ok ⟨none, none, command, params⟩ ↔
      paramsAfterSpace (text.takeWhile (!Text.isLineBreak ·)) = params := by
  rw [received_command hLine hNonempty hLetters, Except.ok.injEq, RawLine.mk.injEq]
  exact ⟨fun h => h.2.2.2, fun h => ⟨rfl, rfl, rfl, h⟩⟩

theorem isLine_of_all {text : List Char} (h : text.all (!Text.isLineBreak ·) = true) :
    ∀ c ∈ text, Text.isLineBreak c = false :=
  fun c hc => by simpa using List.all_eq_true.mp h c hc

theorem takeWhile_of_line {text : List Char} (h : ∀ c ∈ text, Text.isLineBreak c = false) :
    text.takeWhile (!Text.isLineBreak ·) = text := by
  refine List.takeWhile_eq_self_iff.mpr fun c hc => ?_
  rw [h c hc]
  rfl

theorem IsMiddle.line {p : List Char} (hp : IsMiddle p) : ∀ c ∈ p, Text.isLineBreak c = false :=
  fun c hc => (inWord_iff.mp (hp.word c hc)).2

/-- A middle parameter arrives as it is. -/
theorem paramsAfterSpace_of_middle {p : List Char} (hp : IsMiddle p) :
    paramsAfterSpace p = [p] := by
  obtain ⟨c, rest, rfl⟩ := List.exists_cons_of_ne_nil hp.nonempty
  have hColon : c ≠ ':' := fun hc => hp.plain (by rw [hc]; rfl)
  rw [paramsAfterSpace_eq (hp.word c List.mem_cons_self) hColon,
    List.takeWhile_eq_self_iff.mpr hp.word, List.dropWhile_eq_nil_iff.mpr hp.word]
  rfl

/-- The first parameter is no longer than the text that it is read from. -/
theorem length_first_le {s p : List Char} {rest : List (List Char)}
    (h : paramsAfterSpace s = p :: rest) : p.length ≤ s.length := by
  induction s with
  | nil => cases h
  | cons c s ih =>
      by_cases hSpace : c = ' '
      · subst hSpace
        exact Nat.le_succ_of_le (ih h)
      by_cases hColon : c = ':'
      · subst hColon
        rw [paramsAfterSpace] at h
        cases h
        exact Nat.le_succ_of_le (List.takeWhile_prefix _).length_le
      by_cases hc : inWord c = true
      · rw [paramsAfterSpace_eq hc hColon] at h
        cases h
        exact (List.takeWhile_prefix _).length_le
      · rw [paramsAfterSpace, if_pos (isLineBreak_of_stop hc hSpace)] at h
        · cases h
        · exact hSpace
        · exact hColon

/-- A text after a space arrives as it is exactly if it is a word that may stand alone. -/
theorem paramsAfterSpace_eq_self_iff (p : List Char) :
    paramsAfterSpace (p.takeWhile (!Text.isLineBreak ·)) = [p] ↔ IsMiddle p := by
  constructor
  · intro h
    have hGood := (goodParams_after (p.takeWhile (!Text.isLineBreak ·))).1
    rw [h] at hGood
    have hLine : ∀ c ∈ p, Text.isLineBreak c = false := hGood.last p rfl
    rw [takeWhile_of_line hLine] at h
    cases p with
    | nil => cases h
    | cons c rest =>
        have hSpace : c ≠ ' ' := by
          rintro rfl
          have hLength : (' ' :: rest).length ≤ rest.length := length_first_le h
          exact absurd hLength (Nat.not_succ_le_self _)
        have hColon : c ≠ ':' := by
          rintro rfl
          rw [paramsAfterSpace] at h
          have hLength := (List.takeWhile_prefix (l := rest) (!Text.isLineBreak ·)).length_le
          rw [(List.cons.inj h).1] at hLength
          exact absurd hLength (Nat.not_succ_le_self _)
        have hc : inWord c = true := inWord_iff.mpr ⟨hSpace, hLine c List.mem_cons_self⟩
        rw [paramsAfterSpace_eq hc hColon] at h
        have hWord := List.takeWhile_eq_self_iff.mp (List.cons.inj h).1
        exact ⟨List.cons_ne_nil c rest, by simpa using hColon, hWord⟩
  · intro hp
    rw [takeWhile_of_line hp.line, paramsAfterSpace_of_middle hp]

def userParams (username realname : List Char) : List (List Char) :=
  [username, ['0'], ['*'], realname]

/-- The parameters of USER arrive as they were meant exactly if the username is one word and the
realname one line. -/
theorem paramsAfterSpace_user_iff (username realname : List Char) :
    paramsAfterSpace ((username ++ " 0 * :".toList ++ realname).takeWhile (!Text.isLineBreak ·)) =
        userParams username realname ↔
      IsMiddle username ∧ ∀ c ∈ realname, Text.isLineBreak c = false := by
  constructor
  · intro h
    have hGood := (goodParams_after
      ((username ++ " 0 * :".toList ++ realname).takeWhile (!Text.isLineBreak ·))).1
    rw [h] at hGood
    exact ⟨hGood.middle username List.mem_cons_self, hGood.last realname rfl⟩
  · rintro ⟨hUser, hReal⟩
    have hLine : ∀ c ∈ username ++ " 0 * :".toList ++ realname, Text.isLineBreak c = false := by
      refine List.forall_mem_append.mpr ⟨List.forall_mem_append.mpr ⟨hUser.line, ?_⟩, hReal⟩
      exact isLine_of_all (by decide)
    rw [takeWhile_of_line hLine]
    have hZero : IsMiddle ['0'] := ⟨by decide, by decide, List.all_eq_true.mp (by decide)⟩
    have hStar : IsMiddle ['*'] := ⟨by decide, by decide, List.all_eq_true.mp (by decide)⟩
    have hGood : GoodParams (userParams username realname) :=
      (((goodParams_singleton hReal).cons hStar).cons hZero).cons hUser
    have hText : WritesParams (userParams username realname)
        (' ' :: (username ++ " 0 * :".toList ++ realname)) := by
      have hWritten : WritesParams (userParams username realname) _ :=
        .cons 0 username (by simp) (.cons 0 ['0'] (by simp) (.cons 0 ['*'] (by simp)
          (.last 0 realname)))
      rw [List.append_assoc]
      exact hWritten
    exact hText.paramsOf_eq hGood

end RawLine

namespace Config

open RawLine

/-- Nicknames have no spaces or line breaks in them. -/
theorem inWord_of_isNickChar {c : Char} (h : isNickChar c = true) : inWord c = true := by
  have hChars : isNickChar ' ' = false ∧ isNickChar '\r' = false ∧ isNickChar '\n' = false := by
    decide
  refine inWord_iff.mpr ⟨?_, Bool.eq_false_iff.mpr fun hBreak => ?_⟩
  · rintro rfl
    rw [hChars.1] at h
    cases h
  · rw [Text.isLineBreak, Bool.or_eq_true, beq_iff_eq, beq_iff_eq] at hBreak
    rcases hBreak with rfl | rfl
    · rw [hChars.2.1] at h
      cases h
    · rw [hChars.2.2] at h
      cases h

/-- A nickname that can be sent is a word that may stand alone. -/
theorem isMiddle_of_isSendableNick {nick : String} (h : isSendableNick nick = true) :
    IsMiddle nick.toList := by
  unfold isSendableNick at h
  cases hNick : nick.toList with
  | nil =>
      rw [hNick] at h
      cases h
  | cons c rest =>
      rw [hNick] at h
      obtain ⟨hStart, hAll⟩ := Bool.and_eq_true_iff.mp h
      refine ⟨List.cons_ne_nil c rest, ?_, fun d hd => ?_⟩
      · rw [List.head?_cons, ne_eq, Option.some.injEq]
        rintro rfl
        cases hStart
      · exact inWord_of_isNickChar (List.all_eq_true.mp hAll d hd)

/-- Settings that are accepted have a nickname that can be sent. -/
theorem isSendableNick_of_validate {c : Config} (h : c.validate = .ok c) :
    isSendableNick c.nickname = true := by
  unfold validate at h
  cases hDefect : c.defect? with
  | some e =>
      rw [hDefect] at h
      cases h
  | none =>
      unfold defect? at hDefect
      by_cases hEmpty : c.nickname = ""
      · rw [if_pos hEmpty] at hDefect
        cases hDefect
      rw [if_neg hEmpty] at hDefect
      cases hBad : (c.nickname :: c.altNickname.toList).find? (!isSendableNick ·) with
      | some nick =>
          rw [hBad] at hDefect
          cases hDefect
      | none =>
          have hGood := List.find?_eq_none.mp hBad c.nickname List.mem_cons_self
          simpa using hGood

end Config

namespace Engine

open RawLine

/-- What a server reads of the lines that register us with settings that are accepted. -/
structure RegistersAs (c : Config) (lines : List String) : Prop where
  lines_eq : lines = (c.password.map ("PASS " ++ ·)).toList ++
    ["NICK " ++ c.nickname, "USER " ++ c.username ++ " 0 * :" ++ c.realname]
  nick : received ("NICK " ++ c.nickname) =
    .ok ⟨none, none, "NICK".toList, [c.nickname.toList]⟩
  pass : ∀ password ∈ c.password, received ("PASS " ++ password) =
      .ok ⟨none, none, "PASS".toList, [password.toList]⟩ ↔ IsMiddle password.toList
  user : received ("USER " ++ c.username ++ " 0 * :" ++ c.realname) =
      .ok ⟨none, none, "USER".toList, userParams c.username.toList c.realname.toList⟩ ↔
    IsMiddle c.username.toList ∧ ∀ ch ∈ c.realname.toList, Text.isLineBreak ch = false

variable {μ : Type}

/-- The lines sent for accepted settings, and for each of them when it arrives as it was meant. -/
theorem registersAs_registrationLines {c : Config} (h : c.validate = .ok c) :
    RegistersAs c (Session.registrationLines c) where
  lines_eq := rfl
  nick := by
    have hNick := Config.isMiddle_of_isSendableNick (Config.isSendableNick_of_validate h)
    have hLine : ("NICK " ++ c.nickname).toList = "NICK".toList ++ ' ' :: c.nickname.toList :=
      String.toList_append
    exact (received_eq_iff hLine (by decide) (List.all_eq_true.mp (by decide))).mpr
      ((paramsAfterSpace_eq_self_iff _).mpr hNick)
  pass := by
    intro password _
    have hLine : ("PASS " ++ password).toList = "PASS".toList ++ ' ' :: password.toList :=
      String.toList_append
    exact (received_eq_iff hLine (by decide) (List.all_eq_true.mp (by decide))).trans
      (paramsAfterSpace_eq_self_iff _)
  user := by
    have hLine : ("USER " ++ c.username ++ " 0 * :" ++ c.realname).toList = "USER".toList ++
        ' ' :: (c.username.toList ++ " 0 * :".toList ++ c.realname.toList) := by
      simp only [String.toList_append, List.append_assoc]
      rfl
    exact (received_eq_iff hLine (by decide) (List.all_eq_true.mp (by decide))).trans
      (paramsAfterSpace_user_iff _ _)

/-- Settings that are accepted queue their lines and nothing else. The nickname arrives as it is
set; the password does exactly if it is one word, and the other two if the username is one and the
realname has no line break. -/
theorem registers_as {c : Config} (h : c.validate = .ok c) (dialectOf : String → ListDialect)
    (memory : μ) :
    ∃ (e : Engine μ) (t u : Turn μ), Engine.new c dialectOf memory = .ok e ∧
      (∃ fuel, e.connecting fuel = .ok (some t)) ∧ t.engine.outbound = [] ∧
      (∃ fuel, t.engine.connected fuel = .ok (some u)) ∧ RegistersAs c u.engine.outbound := by
  let e : Engine μ := ⟨Session.new c dialectOf, Listeners.empty, memory, []⟩
  have hNew : Engine.new c dialectOf memory = .ok e := by
    rw [Engine.new, h]
  -- two steps of the session, performed where nobody listens
  let opening : Session := { Session.new c dialectOf with lifecycle := ⟨.connecting, false⟩ }
  obtain ⟨t, ⟨fuel, hOpens⟩, _, hEngine⟩ :=
    perform_of_isEmpty (e := e) rfl (opening.tells [.phaseChanged .disconnected .connecting])
  have hConnecting : e.connecting fuel = .ok (some t) := congrArg Except.ok hOpens
  let registering : Session := { Session.new c dialectOf with lifecycle := ⟨.registering, false⟩ }
  have hListeners : t.engine.listeners.isEmpty = true := by
    rw [hEngine]
    rfl
  obtain ⟨u, ⟨fuel', hRegisters⟩, _, hEngine'⟩ := perform_of_isEmpty hListeners
    ⟨registering, [.phaseChanged .connecting .registering], Session.registrationLines c⟩
  have hConnected : t.engine.connected fuel' = .ok (some u) := by
    rw [connected, hEngine]
    rw [hEngine] at hRegisters
    exact congrArg Except.ok hRegisters
  have hLines : u.engine.outbound = Session.registrationLines c := by
    rw [hEngine', hEngine]
    rfl
  refine ⟨e, t, u, hNew, ⟨fuel, hConnecting⟩, by rw [hEngine]; rfl, ⟨fuel', hConnected⟩, ?_⟩
  rw [hLines]
  exact registersAs_registrationLines h

/-- A password of one word and a realname of two arrive. -/
theorem registers_as_of_one_word :
    let c : Config := { nickname := "me", realname := "Real Name", password := some "hunter2" }
    c.validate = .ok c ∧
      ∃ (e : Engine Unit) (t u : Turn Unit), Engine.new c (fun _ => .standard) () = .ok e ∧
        (∃ fuel, e.connecting fuel = .ok (some t)) ∧
        (∃ fuel, t.engine.connected fuel = .ok (some u)) ∧
        u.engine.outbound = ["PASS hunter2", "NICK me", "USER slirc 0 * :Real Name"] ∧
        u.engine.outbound.map received =
          [.ok ⟨none, none, "PASS".toList, ["hunter2".toList]⟩,
            .ok ⟨none, none, "NICK".toList, ["me".toList]⟩,
            .ok ⟨none, none, "USER".toList, userParams "slirc".toList "Real Name".toList⟩] := by
  intro c
  have hValid : c.validate = .ok c := by decide +kernel
  obtain ⟨e, t, u, hNew, hConnecting, _, hConnected, hLines⟩ :=
    registers_as hValid (fun _ => .standard) ()
  have hOutbound : u.engine.outbound = ["PASS hunter2", "NICK me", "USER slirc 0 * :Real Name"] :=
    hLines.lines_eq.trans (by decide +kernel)
  have hPassword : IsMiddle "hunter2".toList :=
    ⟨by decide, by decide, List.all_eq_true.mp (by decide)⟩
  have hUsername : IsMiddle c.username.toList :=
    ⟨by decide, by decide, List.all_eq_true.mp (by decide)⟩
  have hPass := (hLines.pass "hunter2" rfl).mpr hPassword
  have hUser := hLines.user.mpr ⟨hUsername, isLine_of_all (by decide)⟩
  have hPassLine : "PASS " ++ "hunter2" = "PASS hunter2" := by decide +kernel
  have hNickLine : "NICK " ++ c.nickname = "NICK me" := by decide +kernel
  have hUserLine : "USER " ++ c.username ++ " 0 * :" ++ c.realname =
      "USER slirc 0 * :Real Name" := by decide +kernel
  have hNick := hLines.nick
  rw [hPassLine] at hPass
  rw [hNickLine] at hNick
  rw [hUserLine] at hUser
  refine ⟨hValid, e, t, u, hNew, hConnecting, hConnected, hOutbound, ?_⟩
  rw [hOutbound, List.map_cons, List.map_cons, List.map_cons, hPass, hNick, hUser]
  rfl

/-- A password of two words is accepted and arrives as two parameters. -/
theorem registration_splits_password :
    let c : Config := { nickname := "me", password := some "open sesame" }
    c.validate = .ok c ∧
      ∃ (e : Engine Unit) (t u : Turn Unit), Engine.new c (fun _ => .standard) () = .ok e ∧
        e.connecting 1 = .ok (some t) ∧ t.engine.connected 4 = .ok (some u) ∧
        u.engine.outbound.head? = some "PASS open sesame" ∧
        received "PASS open sesame" =
          .ok ⟨none, none, "PASS".toList, ["open".toList, "sesame".toList]⟩ ∧
        received "PASS open sesame" ≠
          .ok ⟨none, none, "PASS".toList, ["open sesame".toList]⟩ := by
  intro c
  have hReceived : received "PASS open sesame" =
      .ok ⟨none, none, "PASS".toList, ["open".toList, "sesame".toList]⟩ := by decide +kernel
  have hValid : c.validate = .ok c := by decide +kernel
  let s : Session := Session.new c fun _ => .standard
  have hNew : Engine.new c (fun _ => .standard) () = .ok ⟨s, Listeners.empty, (), []⟩ := by
    rw [Engine.new, hValid]
  refine ⟨hValid, _, _, _, hNew, rfl, rfl, ?_, hReceived, ?_⟩
  · decide +kernel
  · rw [hReceived]
    decide +kernel

end Engine

end Irc
