import Irc.Proofs.Session.Capabilities
import Mathlib.Data.List.TakeWhile
/-! Messages to those members of a channel who have a status. The marks of statuses stand in front
of the channel's name, and all of them are left out. So the message reaches the channel if its name
does not begin with such a mark itself; otherwise the name loses its beginning, and the message
comes to be one to another channel, or to us. -/
namespace Irc

namespace Text

/-- Leaving out a run of characters leaves what follows it exactly if all of it goes and what
follows stays. -/
theorem dropWhile_append_cons_eq_iff {p : Char → Bool} {run rest : List Char} {c : Char} :
    (run ++ c :: rest).dropWhile p = c :: rest ↔ (∀ x ∈ run, p x = true) ∧ p c = false := by
  constructor
  · intro h
    have hSplit := List.takeWhile_append_dropWhile (p := p) (l := run ++ c :: rest)
    rw [h] at hSplit
    have hRun : (run ++ c :: rest).takeWhile p = run := List.append_cancel_right hSplit
    have hHead := List.head?_dropWhile_not p (run ++ c :: rest)
    rw [h] at hHead
    refine ⟨fun x hx => ?_, by simpa using hHead⟩
    rw [← hRun] at hx
    exact List.mem_takeWhile_imp hx
  · rintro ⟨hRun, hc⟩
    rw [List.dropWhile_append_of_pos hRun]
    exact List.dropWhile_cons_of_neg (Bool.eq_false_iff.mp hc)

end Text

namespace StatusModes

/-- Letters and glyphs of statuses come in pairs. -/
theorem length_read? {text : String} {m : StatusModes} (h : read? text = some m) :
    m.letters.toList.length = m.glyphs.toList.length := by
  simp only [read?, Option.bind_eq_bind, Option.bind_eq_some_iff] at h
  obtain ⟨_, _, ⟨letters, glyphs⟩, _, hRead⟩ := h
  obtain ⟨hLength, hModes⟩ := Option.ite_none_right_eq_some.mp hRead
  cases hModes
  simpa using hLength

end StatusModes

namespace Support

/-- The characters that may stand before a channel's name in a target, as they are announced. -/
def statusMarks (s : Support) : List Char :=
  if s.statusTargets = "" then s.statusModes.glyphs.toList else s.statusTargets.toList

/-- Those of them that are known where a message is read: of the glyphs, the ones of the statuses
that a table keeps. -/
def keptMarks (s : Support) : List Char :=
  if s.statusTargets = "" then (s.statusModes.pairs.take 64).map Prod.snd
  else s.statusTargets.toList

def beginsChannel (s : Support) (text : String) : Bool :=
  text.toList.head?.any s.channelTypes.toList.contains

/-- The channel that a message with a target goes to: the one after all the marks, if a channel's
name begins there, or else the target itself, if it is a channel's name. -/
def addressee? (s : Support) (target : String) : Option String :=
  let plain := String.ofList (target.toList.dropWhile s.keptMarks.contains)
  if s.beginsChannel plain then some plain
  else if s.beginsChannel target then some target
  else none

/-- The target names those members of a channel who have one of some statuses: it is a run of marks
and then the name of the channel, with the first character of it. -/
structure StatusTarget (s : Support) (target : String) (marks : List Char) (channel : String)
    (first : Char) : Prop where
  target : target = String.ofList marks ++ channel
  nonempty : marks ≠ []
  announced : ∀ c ∈ marks, c ∈ s.statusMarks
  begins : channel.toList.head? = some first
  type : first ∈ s.channelTypes.toList

variable {s : Support} {target channel : String} {marks : List Char} {first : Char}

/-- Whether a target is marks and a channel can be read off it. -/
theorem statusTarget_iff : s.StatusTarget target marks channel first ↔
    target = String.ofList marks ++ channel ∧ marks ≠ [] ∧
      marks.all s.statusMarks.contains = true ∧
      channel.toList.head? = some first ∧ first ∈ s.channelTypes.toList := by
  simp only [List.all_eq_true, List.contains_iff_mem]
  exact ⟨fun h => ⟨h.target, h.nonempty, h.announced, h.begins, h.type⟩,
    fun ⟨target, nonempty, announced, begins, type⟩ => ⟨target, nonempty, announced, begins, type⟩⟩

instance : Decidable (s.StatusTarget target marks channel first) :=
  decidable_of_iff _ statusTarget_iff.symm

theorem length_statusModes (s : Support) :
    s.statusModes.letters.toList.length = s.statusModes.glyphs.toList.length := by
  have hDefault : StatusModes.default.letters.toList.length =
      StatusModes.default.glyphs.toList.length := by decide
  unfold statusModes
  split
  · exact hDefault
  · rfl
  case h_3 text _ =>
      split
      · rfl
      · cases hRead : StatusModes.read? text with
        | none => exact hDefault
        | some m => exact StatusModes.length_read? hRead

/-- A table that keeps all statuses knows all marks. -/
theorem keptMarks_eq (h : s.statusTargets ≠ "" ∨ s.statusModes.glyphs.toList.length ≤ 64) :
    s.keptMarks = s.statusMarks := by
  unfold keptMarks statusMarks
  split
  case isFalse => rfl
  case isTrue hNone =>
      have hGlyphs : s.statusModes.glyphs.toList.length ≤ 64 := h.resolve_left (absurd hNone)
      have hPairs : s.statusModes.pairs.length ≤ 64 := by
        rw [StatusModes.pairs, List.length_zip, s.length_statusModes, Nat.min_self]
        exact hGlyphs
      rw [List.take_of_length_le hPairs, StatusModes.pairs,
        List.map_snd_zip s.length_statusModes.ge]

/-- A target leads to its channel exactly if all marks before it are known and its name does not
begin with one. -/
theorem StatusTarget.addressee?_eq_iff (h : s.StatusTarget target marks channel first) :
    s.addressee? target = some channel ↔
      (∀ c ∈ marks, c ∈ s.keptMarks) ∧ first ∉ s.keptMarks := by
  obtain ⟨rest, hChannel⟩ := List.head?_eq_some_iff.mp h.begins
  have hTarget : target.toList = marks ++ first :: rest := by
    rw [h.target, String.toList_append, String.toList_ofList, hChannel]
  have hBegins : s.beginsChannel channel = true := by
    rw [beginsChannel, h.begins]
    simpa using h.type
  have hPlain : String.ofList (target.toList.dropWhile s.keptMarks.contains) = channel ↔
      (∀ c ∈ marks, c ∈ s.keptMarks) ∧ first ∉ s.keptMarks := by
    rw [← String.toList_inj, String.toList_ofList, hTarget, hChannel,
      Text.dropWhile_append_cons_eq_iff]
    simp
  have hLonger : target ≠ channel := by
    intro hSame
    rw [hSame, hChannel] at hTarget
    have hNone : marks = [] := List.append_cancel_right hTarget.symm
    exact h.nonempty hNone
  rw [← hPlain]
  unfold addressee?
  simp only
  constructor
  · intro hLeads
    split at hLeads
    · exact Option.some.inj hLeads
    · split at hLeads
      · exact absurd (Option.some.inj hLeads) hLonger
      · cases hLeads
  · intro hSame
    rw [hSame, if_pos hBegins]

end Support

/-- To whom a message is, where one is told of: to a channel, or to us. -/
def Event.addressee? : Event → Option (Option String)
  | .channelMessage channel .. => some (some channel)
  | .privateMessage .. => some none
  | _ => none

namespace Session

variable {s : Session} {line : Line} {target : String}

/-- A line with a message from a user: a PRIVMSG, or a NOTICE from a user after registration. -/
structure TakesMessage (s : Session) (line : Line) (target : String) : Prop where
  message : line.command = "PRIVMSG" ∨ line.command = "NOTICE" ∧ line.source?.isSome = true ∧
    line.source.isServer = false ∧ s.isRegistered = true
  target : line.param? 0 = some target
  text : (line.param? 1).isSome = true

theorem takesMessage_iff : s.TakesMessage line target ↔
    (line.command = "PRIVMSG" ∨ line.command = "NOTICE" ∧ line.source?.isSome = true ∧
      line.source.isServer = false ∧ s.isRegistered = true) ∧
    line.param? 0 = some target ∧ (line.param? 1).isSome = true :=
  ⟨fun h => ⟨h.message, h.target, h.text⟩, fun h => ⟨h.1, h.2.1, h.2.2⟩⟩

instance : Decidable (s.TakesMessage line target) := decidable_of_iff _ takesMessage_iff.symm

/-- The marks that are left out are those of the table in effect. -/
theorem isStatusMark_eq {n : Network} {support : Support} {info : ServerInfo}
    (hSupport : n.support = support) (hModes : n.modes = ModeTable.ofServer support info)
    (c : Char) : isStatusMark n c = support.keptMarks.contains c := by
  have hStatuses : n.modes.statuses = support.statusModes.pairs.take 64 := by
    rw [hModes]
    rfl
  unfold isStatusMark Support.keptMarks
  rw [hSupport]
  split
  · rw [ModeTable.isGlyph, hStatuses, List.contains_eq_any_beq, List.any_map]
    simp only [Function.comp_def, Bool.beq_comm]
  · rfl

/-- A message is told of once, as one to the channel that its target leads to. -/
theorem addressee?_delivered {n : Network} {support : Support} {info : ServerInfo}
    (hSupport : n.support = support) (hModes : n.modes = ModeTable.ofServer support info)
    (target : String) (sender : Hostmask) (utterance : Utterance) :
    (delivered n target sender utterance).addressee? = some (support.addressee? target) := by
  have hMark : isStatusMark n = support.keptMarks.contains :=
    funext (isStatusMark_eq hSupport hModes)
  have hChannel (text : String) : n.isChannelName text = support.beginsChannel text := by
    rw [← hSupport]
    rfl
  unfold delivered plainTarget Support.addressee?
  simp only [hMark, hChannel]
  generalize String.ofList (target.toList.dropWhile support.keptMarks.contains) = plain
  by_cases hPlain : support.beginsChannel plain = true
  · by_cases hSame : plain = target
    · subst hSame
      simp [hPlain, Event.addressee?]
    · simp [hPlain, hSame, Event.addressee?]
  · by_cases hTarget : support.beginsChannel target = true
    · simp [hPlain, hTarget, Event.addressee?]
    · simp [hPlain, hTarget, Event.addressee?]

theorem TakesMessage.params_eq (h : s.TakesMessage line target) :
    ∃ text rest, line.params = target :: text :: rest := by
  obtain ⟨text, hText⟩ := Option.isSome_iff_exists.mp h.text
  have hTarget := h.target
  unfold Line.param? at hTarget hText
  cases hParams : line.params with
  | nil =>
      rw [hParams] at hTarget
      cases hTarget
  | cons first others =>
      rw [hParams] at hTarget hText
      cases hTarget
      cases others with
      | nil => cases hText
      | cons second rest => exact ⟨second, rest, rfl⟩

theorem TakesMessage.numeric?_eq_none (h : s.TakesMessage line target) : line.numeric? = none := by
  rw [Line.numeric?]
  rcases h.message with hCommand | ⟨hCommand, _⟩
  · rw [hCommand]
    decide
  · rw [hCommand]
    decide

/-- What is learned of the sender has no part in where a message goes. -/
theorem delivered_learnSender (n : Network) (target : String) (sender : Hostmask)
    (utterance : Utterance) :
    delivered (learnSender n sender) target sender utterance =
      delivered n target sender utterance := by
  rw [(learnSender_sameStanding n sender).frame]
  rfl

/-- A message is told of, and nothing else is. -/
theorem TakesMessage.events_handled (h : s.TakesMessage line target) (now : Moment) :
    ∃ utterance,
      (s.handled line now).events = [delivered s.network target line.source utterance] := by
  obtain ⟨text, rest, hParams⟩ := h.params_eq
  unfold handled
  rw [h.numeric?_eq_none]
  rcases h.message with hCommand | ⟨hCommand, hSource, hUser, hRegistered⟩
  · simp only [command, hCommand, privmsg, hParams]
    exact ⟨_, congrArg (fun event => [event]) (delivered_learnSender ..)⟩
  · have hNotServer : ¬(line.source?.isNone || line.source.isServer || !s.isRegistered) = true := by
      simp [← Option.not_isSome, hSource, hUser, hRegistered]
    simp only [command, hCommand, notice, hParams, if_neg hNotServer]
    exact ⟨_, congrArg (fun event => [event]) (delivered_learnSender ..)⟩

/-- What a session has to tell before it deals with a line is no message. -/
theorem addressees_settlement (s : Session) (raw : String) (line : Line) :
    (Event.dataIn (bare raw) :: s.settlement line).filterMap Event.addressee? = [] := by
  unfold settlement
  split <;> rfl

/-- After any announcements a message is told of once, as one to the channel that its target leads
to by what is announced. -/
theorem Heeds.addressees_dispatch {a : Announcements} (hHeeds : s.Heeds a) {raw : String}
    (hLine : Picture.lineOf? raw = some line) (h : s.TakesMessage line target) (now : Moment) :
    (s.dispatch raw now).events.filterMap Event.addressee? = [a.support.addressee? target] := by
  let settled := (s.noticing now).settledFor line
  have hSettled : settled.Heeds (a.settledBy line) := (hHeeds.noticing now).settledFor line
  have hEffect : settled.network.InEffect a.support a.info := by
    refine hSettled.inEffect ?_
    rw [Announcements.settledBy, h.numeric?_eq_none]
    exact Bool.and_false _
  have hTakes : settled.TakesMessage line target := by
    have hLife : settled.lifecycle = s.lifecycle := lifecycle_settledFor ..
    have hSame : settled.isRegistered = s.isRegistered := congrArg (·.phase == .connected) hLife
    refine ⟨?_, h.target, h.text⟩
    rw [hSame]
    exact h.message
  obtain ⟨utterance, hTold⟩ := hTakes.events_handled now
  rw [s.dispatch_eq_handled now hLine]
  show ((Event.dataIn (bare raw) :: s.settlement line) ++
    (settled.handled line now).events).filterMap Event.addressee? = _
  rw [List.filterMap_append, addressees_settlement, hTold, List.nil_append]
  exact List.filterMap_cons_some
    (addressee?_delivered hSettled.support hEffect.modes target line.source utterance)

/-- A message with status marks before a channel's name, after any announcements and whatever else
happened. It is told of once, as one to the channel that its target leads to. That is the channel
that is named exactly if all the marks are known, of which a table keeps no more than 64 glyphs,
and the name does not begin with such a mark itself. -/
theorem statusMessage_reaches_iff {s : Session} (hNetwork : s.network = Network.new)
    (hPending : s.supportPending = false) (deeds : List Deed) {support : Support}
    (hSupport : (Announcements.new.hearAll deeds).support = support) {raw : String} {line : Line}
    (hLine : Picture.lineOf? raw = some line) {target channel : String} {marks : List Char}
    {first : Char} (hMessage : (s.through deeds).TakesMessage line target)
    (hTarget : support.StatusTarget target marks channel first) (now : Moment) :
    let told := ((s.through deeds).dispatch raw now).events.filterMap Event.addressee?
    told = [support.addressee? target] ∧
    (told = [some channel] ↔
      (∀ c ∈ marks, c ∈ support.keptMarks) ∧ first ∉ support.keptMarks) ∧
    (support.statusTargets ≠ "" ∨ support.statusModes.glyphs.toList.length ≤ 64 →
      (told = [some channel] ↔ first ∉ support.statusMarks)) := by
  intro told
  have hHeeds := (Heeds.new hNetwork hPending).through deeds
  have hTold : told = [support.addressee? target] := by
    rw [← hSupport]
    exact hHeeds.addressees_dispatch hLine hMessage now
  have hReaches : told = [some channel] ↔
      (∀ c ∈ marks, c ∈ support.keptMarks) ∧ first ∉ support.keptMarks := by
    rw [hTold, List.singleton_inj]
    exact hTarget.addressee?_eq_iff
  refine ⟨hTold, hReaches, fun hKept => ?_⟩
  rw [hReaches, Support.keptMarks_eq hKept]
  exact and_iff_right hTarget.announced

/-- Owners of a channel, and a server that does not say which marks there may be. -/
theorem statusMessage_reaches_iff_of_owners :
    let s : Session := { new {} fun _ => .standard with lifecycle := ⟨.registering, false⟩ }
    let deeds : List Deed :=
      [.text ":irc 001 me :Hello" ⟨0, 0⟩, .text ":irc 005 me PREFIX=(qov)~@+ :yes" ⟨1, 0⟩]
    let support := (Announcements.new.hearAll deeds).support
    let raw := ":ann!u@h NOTICE ~@#a :owners only"
    let line : Line := ⟨[], some "ann!u@h", "NOTICE", ["~@#a", "owners only"]⟩
    s.network = Network.new ∧ s.supportPending = false ∧ Picture.lineOf? raw = some line ∧
      (s.through deeds).TakesMessage line "~@#a" ∧
      support.StatusTarget "~@#a" ['~', '@'] "#a" '#' ∧
      ((s.through deeds).dispatch raw ⟨2, 0⟩).events.filterMap Event.addressee? =
        [some "#a"] := by
  intro s deeds support raw line
  have hLine : Picture.lineOf? raw = some line := by decide +kernel
  have hMessage : (s.through deeds).TakesMessage line "~@#a" := by decide +kernel
  have hTarget : support.StatusTarget "~@#a" ['~', '@'] "#a" '#' := by decide +kernel
  obtain ⟨_, _, hReaches⟩ := statusMessage_reaches_iff (s := s) rfl rfl deeds rfl hLine hMessage
    hTarget ⟨2, 0⟩
  have hKept : support.statusModes.glyphs.toList.length ≤ 64 := by decide +kernel
  have hPlain : '#' ∉ support.statusMarks := by decide +kernel
  exact ⟨rfl, rfl, hLine, hMessage, hTarget, (hReaches (.inr hKept)).mpr hPlain⟩

/-- Operators of a channel whose name begins with a mark. The target can name no other channel, and
yet the message is told of as one to us. -/
theorem statusMessage_to_marked_name_is_private :
    let s : Session := { new {} fun _ => .standard with lifecycle := ⟨.registering, false⟩ }
    let deeds : List Deed :=
      [.text ":irc 001 me :Hello" ⟨0, 0⟩,
        .text ":irc 005 me CHANTYPES=#& PREFIX=(qaohv)~&@%+ :yes" ⟨1, 0⟩]
    let support := (Announcements.new.hearAll deeds).support
    support.StatusTarget "@&local" ['@'] "&local" '&' ∧
      ∀ raw ∈ [":ann!u@h PRIVMSG @&local :hello", ":ann!u@h NOTICE @&local :hello"],
        (∃ line ∈ Picture.lineOf? raw, (s.through deeds).TakesMessage line "@&local") ∧
        ((s.through deeds).dispatch raw ⟨2, 0⟩).events.filterMap Event.addressee? = [none] := by
  decide +kernel

end Session

end Irc
