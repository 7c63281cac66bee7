import Irc.Proofs.Session.Membership
/-! From the greeting on, the records of a session tell what the lines tell. -/
namespace Irc

theorem Numeric.code_of_ofCode? {code : Nat} {n : Numeric} (h : ofCode? code = some n) :
    n.code = code := by
  unfold ofCode? at h
  split at h <;> cases h <;> rfl

/-- As long as the server has announced no numeric of its own, the list replies are those known
by name. -/
theorem ListNumeric.isSome_ofCode?_empty (code : Nat) :
    (ofCode? Support.empty code).isSome = true ↔ code ∈ Picture.listCodes := by
  have hNone : Support.empty.listNumeric? = none := rfl
  have hKnown : ∀ c ∈ Picture.listCodes, (Numeric.ofCode? c).isSome = true := by decide
  unfold ofCode?
  rw [hNone]
  cases hCode : Numeric.ofCode? code with
  | none =>
      refine iff_of_false (by simp) fun hIn => ?_
      have hSome := hKnown code hIn
      rw [hCode] at hSome
      cases hSome
  | some n =>
      rw [← Numeric.code_of_ofCode? hCode, Option.bind_some]
      cases n <;> decide

@[simp] theorem Step.session_andThen (a : Step) (f : Session → Step) :
    (a.andThen f).session = (f a.session).session := rfl

@[simp] theorem Session.session_tells (s : Session) (events : List Event) :
    (s.tells events).session = s := rfl

/-- A text is activity on the connection, whether it is a line or not. -/
theorem Session.session_dispatch (s : Session) (raw : String) (now : Moment) :
    (s.dispatch raw now).session =
      (Picture.lineOf? raw).elim { s with ping := s.ping.activity now.millis } fun line =>
        ({ s with ping := s.ping.activity now.millis }.handle line now).session := by
  unfold Session.dispatch Picture.lineOf?
  simp only [Step.session_andThen, session_tells]
  cases Line.read (String.ofList (Text.trimEnd Text.isLineBreak raw.toList)) <;> rfl

/-- Where no announcement is waiting, a line is all there is to do. -/
theorem Session.session_handle {s : Session} (h : s.supportPending = false) (line : Line)
    (now : Moment) :
    (s.handle line now).session =
      (match line.numeric? with
      | some code => s.numericReply line now code
      | none => s.command line now).session := by
  have hSettled : (s.supportPending && line.numeric? != some Numeric.isupport.code) = false := by
    rw [h, Bool.false_and]
  rw [Session.handle, hSettled]
  rfl

namespace Session.Follows

variable {s : Session} {p : Picture}

/-- Of all numerics by name, only a list of names is seen in a picture. -/
theorem namedNumeric (h : s.Follows p) (line : Line) (now : Moment) {n : Numeric}
    (hWelcome : n ≠ .welcome) (hSupport : n ≠ .isupport) :
    (s.namedNumeric line now n).session.Follows
      (if n = .namReply then p.namesLine line else p) := by
  unfold Session.namedNumeric
  by_cases hRefused : n.isJoinFailure = true
  · rw [if_pos hRefused, if_neg (by rintro rfl; cases hRefused)]
    exact h.joinRefused line n.code
  · rw [if_neg hRefused]
    cases n
    case welcome => exact absurd rfl hWelcome
    case isupport => exact absurd rfl hSupport
    case myInfo => exact h.serverInfo line
    case endOfMotd => exact h.motdEnd false
    case noMotd => exact h.motdEnd true
    case nicknameInUse => exact h.nickInUse line
    case unavailResource => exact h.nickInUse line
    case noTopic => exact h.noTopic line
    case topic => exact h.topicIs line
    case topicWhoTime => exact h.topicWhoTime line
    case namReply => exact h.names line
    case endOfNames => exact h.endOfNames line
    case creationTime => exact h.creationTime line
    case whoReply => exact h.whoReply line
    case whoisUser => exact h.whoisUser line
    case away => exact h.awayReply line
    case unaway => exact h.ownAway false
    case nowAway => exact h.ownAway true
    case loggedIn => exact h.ownAccount _
    case loggedOut => exact h.ownAccount none
    case channelModeIs => exact h.channelModeIs line now
    case umodeIs => exact h.userModeIs line
    all_goals exact h

/-- Of all numerics by code, lists of names and list replies are. -/
theorem numericReply (h : s.Follows p) (line : Line) (now : Moment) {code : Nat}
    (hWelcome : code ≠ 1) (hSupport : code ≠ 5) :
    (s.numericReply line now code).session.Follows (p.numericStep code line) := by
  have hIsList := ListNumeric.isSome_ofCode?_empty code
  rw [Session.numericReply, Step.session_andThen, Session.session_tells, h.tracks.support,
    Picture.numericStep]
  cases hList : ListNumeric.ofCode? Support.empty code with
  | some list =>
      rw [hList] at hIsList
      rw [if_pos (hIsList.mp rfl)]
      exact h.listReply line list
  | none =>
      rw [hList] at hIsList
      rw [if_neg fun hIn => by cases hIsList.mpr hIn]
      cases hNumeric : Numeric.ofCode? code with
      | none =>
          rw [if_neg (by rintro rfl; cases hNumeric)]
          exact h
      | some n =>
          have hCode := Numeric.code_of_ofCode? hNumeric
          have hNamed := h.namedNumeric line now (n := n) (by rintro rfl; exact hWelcome hCode.symm)
            (by rintro rfl; exact hSupport hCode.symm)
          have hNames : n = .namReply ↔ code = 353 := by
            constructor
            · rintro rfl
              exact hCode.symm
            · rintro rfl
              cases hNumeric
              rfl
          simp only [hNames] at hNamed
          exact hNamed

/-- Of all words, those are seen that the picture has a rule for. -/
theorem command (h : s.Follows p) (line : Line) (now : Moment) (hAdmits : p.Admits line) :
    (s.command line now).session.Follows (p.commandStep line) := by
  unfold Session.command
  split
  case h_16 =>
      unfold Picture.commandStep
      split
      case h_6 => exact h
      all_goals contradiction
  all_goals
    rename_i hCommand
    rw [Picture.commandStep, hCommand]
  · exact h
  · exact h.serverPong line now
  · exact h
  · exact h.join line
  · exact h.part line
  · exact h.kick line
  · exact h.topic line now
  · exact h.invite line
  · exact h.nick hAdmits hCommand
  · exact h.quit line
  · exact h.awayNotify line
  · exact h.mode line now
  · exact h.privmsg line
  · exact h.notice line
  · exact h

/-- Records and picture take the same step with each line that the picture can follow. -/
theorem handle (h : s.Follows p) (line : Line) (now : Moment) (hAdmits : p.Admits line) :
    (s.handle line now).session.Follows (p.step line) := by
  rw [Session.session_handle h.settled, Picture.step]
  cases hCode : line.numeric? with
  | some code =>
      have hWelcome : code ≠ 1 := by
        rintro rfl
        exact hAdmits.noWelcome hCode
      have hSupport : code ≠ 5 := by
        rintro rfl
        exact hAdmits.noSupport hCode
      exact h.numericReply line now hWelcome hSupport
  | none => exact h.command line now hAdmits

/-- Records and picture take the same step with each text, be it a line or not. -/
theorem dispatch (h : s.Follows p) (raw : String) (now : Moment)
    (hAdmits : ∀ line ∈ Picture.lineOf? raw, p.Admits line) :
    (s.dispatch raw now).session.Follows (p.read raw) := by
  have hActive : { s with ping := s.ping.activity now.millis }.Follows p := h.congr rfl rfl
  rw [Session.session_dispatch, Picture.read]
  cases hLine : Picture.lineOf? raw with
  | none => exact hActive
  | some line => exact hActive.handle line now (hAdmits line hLine)

end Session.Follows

/-- A session after texts from the server, each with the time of its coming. -/
def Session.heard (s : Session) : List (String × Moment) → Session
  | [] => s
  | text :: rest => (s.dispatch text.1 text.2).session.heard rest

/-- A session goes on following the picture through any number of texts that this can follow. -/
theorem Session.Follows.heard {s : Session} {p : Picture} (h : s.Follows p)
    (texts : List (String × Moment)) (hAdmits : p.AdmitsAll (texts.map Prod.fst)) :
    (s.heard texts).Follows (p.run (texts.map Prod.fst)) := by
  induction texts generalizing s p with
  | nil => exact h
  | cons text rest ih =>
      rw [List.map_cons, Picture.AdmitsAll] at hAdmits
      rw [Session.heard, List.map_cons, Picture.run]
      exact ih (h.dispatch text.1 text.2 hAdmits.1) hAdmits.2

/-- The server has named us, and told nothing else. Our own record is the only one. -/
structure Session.JustNamed (s : Session) (m : CaseMapping) (own : String) : Prop where
  consistent : s.network.Consistent
  mapping : s.network.mapping = m
  named : ∃ me c, s.network.own = some me ∧ s.network.roster.get? me = some c ∧
    m.fold c.nick = own ∧ s.network.roster.byNick.get? own = some me ∧ c.keptAlive = false
  alone : ∀ {id c}, s.network.roster.get? id = some c → s.network.own = some id
  nowhere : ∀ key, s.network.channels.channels.contains key = false
  support : s.network.support = Support.empty
  settled : s.supportPending = false
  /-- The server has announced no statuses of its own. -/
  statuses : ∃ letters user,
    s.network.modes = ModeTable.complete letters StatusModes.default.pairs user

namespace Network

/-- Being named in a network where nobody is known makes our record the first. -/
theorem setOwn_new (mask : String) :
    (new.setOwn mask).2 =
      { new with
        own := some 0
        roster :=
          { mapping := new.mapping
            nextId := 1
            clients := SortedMap.empty.insert 0
              { id := 0, nick := Hostmask.nickOf mask,
                ident := (Hostmask.ofString mask).ident, host := (Hostmask.ofString mask).host }
            byNick := SortedMap.empty.insert (new.mapping.fold (Hostmask.nickOf mask)) 0 } } := rfl

end Network

namespace Session

/-- A greeting is about our identity only. -/
theorem welcome_frame (s : Session) (line : Line) :
    (s.welcome line).session.network =
        (s.network.setOwn ((line.param? 0).getD s.attemptedNick)).2 ∧
      (s.welcome line).session.supportPending = s.supportPending := by
  unfold welcome
  dsimp only
  split <;> exact ⟨rfl, rfl⟩

/-- The first 001 of a connection names us. -/
theorem justNamed_dispatch {s : Session} (hNetwork : s.network = Network.new)
    (hPending : s.supportPending = false) {raw : String} {line : Line} (now : Moment)
    (hLine : Picture.lineOf? raw = some line) (hCode : line.numeric? = some 1) :
    (s.dispatch raw now).session.JustNamed .rfc1459
      (CaseMapping.rfc1459.fold (Hostmask.nickOf ((line.param? 0).getD s.attemptedNick))) := by
  let nick := (line.param? 0).getD s.attemptedNick
  let active := { s with ping := s.ping.activity now.millis }
  have hActive : active.network = Network.new := hNetwork
  have hWelcome : (s.dispatch raw now).session = (active.welcome line).session := by
    have hHandled := session_handle (s := active) hPending line now
    rw [hCode] at hHandled
    rw [session_dispatch, hLine]
    refine hHandled.trans ?_
    change (active.numericReply line now 1).session = _
    rw [numericReply, Step.session_andThen, session_tells, hActive]
    rfl
  have hFrame := active.welcome_frame line
  rw [hActive] at hFrame
  change _ = (Network.new.setOwn nick).2 ∧ _ = s.supportPending at hFrame
  rw [Network.setOwn_new] at hFrame
  rw [hWelcome]
  constructor
  case consistent =>
    rw [hFrame.1, ← Network.setOwn_new]
    exact Network.consistent_new.setOwn nick
  case mapping =>
    rw [hFrame.1]
    rfl
  case named =>
    rw [hFrame.1]
    exact ⟨0, _, rfl, rfl, rfl, SortedMap.get?_insert_self _ _ _, rfl⟩
  case alone =>
    rw [hFrame.1]
    intro id c hc
    change (SortedMap.insert _ _ _).get? id = some c at hc
    rw [SortedMap.get?_insert] at hc
    by_cases hId : id = 0
    · rw [hId]
    · rw [if_neg hId] at hc
      cases hc
  case nowhere =>
    rw [hFrame.1]
    exact fun _ => rfl
  case support => rw [hFrame.1]; rfl
  case settled => rw [hFrame.2]; exact hPending
  case statuses =>
    rw [hFrame.1]
    exact ⟨_, _, rfl⟩

/-- A session that has just been named follows the picture in which there is nobody but us. -/
theorem JustNamed.follows {s : Session} {m : CaseMapping} {own : String}
    (h : s.JustNamed m own) : s.Follows (Picture.new m own) := by
  obtain ⟨me, c, hMe, hc, hNick, hIndexed, hKept⟩ := h.named
  have hOnly : ∀ {id d}, s.network.roster.get? id = some d → id = me ∧ d = c := by
    intro id d hd
    have hId := h.alone hd
    rw [hMe] at hId
    cases hId
    rw [hc] at hd
    cases hd
    exact ⟨rfl, rfl⟩
  have hNoMember : ∀ key id, ¬s.network.channels.HasMember key id := by
    rintro key id ⟨channel, hChannel, _⟩
    have hSome := SortedMap.contains_of_get? hChannel
    rw [h.nowhere key] at hSome
    cases hSome
  refine ⟨?_, h.settled⟩
  constructor
  case mapping => exact h.mapping.symm
  case consistent => exact h.consistent
  case found =>
    intro id d hd
    obtain ⟨rfl, rfl⟩ := hOnly hd
    rw [h.consistent.rosterMapping, h.mapping, hNick]
    exact hIndexed
  case tidy => exact fun hd => Or.inl (h.alone hd)
  case unkept =>
    intro id d hd
    obtain ⟨rfl, rfl⟩ := hOnly hd
    exact hKept
  case own =>
    rw [h.mapping]
    exact ⟨me, c, hMe, hc, hNick⟩
  case channels =>
    intro key
    rw [h.nowhere key]
    simp [Picture.new]
  case members =>
    intro key u
    refine iff_of_false (Finset.notMem_empty _) ?_
    rintro ⟨id, d, _, _, hMember⟩
    exact hNoMember key id hMember
  case support => exact h.support
  case statuses => exact h.statuses

end Session

namespace Network

/-- All that is asked of the records has the picture's answer. -/
structure Agrees (n : Network) (p : Picture) : Prop where
  consistent : n.Consistent
  mapping : n.mapping = p.mapping
  ownNick : n.ownNick?.map p.mapping.fold = some p.own
  isOwn : ∀ x, n.isOwn x = true ↔ p.mapping.fold (Hostmask.nickOf x) = p.own
  /-- There is one record for each nickname that is known, and no other. -/
  clients : ∀ u, p.Knows u ↔
    ∃! id, ∃ c, n.roster.get? id = some c ∧ p.mapping.fold c.nick = u
  client? : ∀ x, (n.client? x).isSome = true ↔ p.Knows (p.mapping.fold (Hostmask.nickOf x))
  channels : ∀ key, n.channels.channels.contains key = true ↔ key ∈ p.channels
  members : ∀ key u, (key, u) ∈ p.members ↔
    ∃ id c, n.roster.get? id = some c ∧ p.mapping.fold c.nick = u ∧ n.channels.HasMember key id
  member? : ∀ channel x, (n.member? channel x).isSome = true ↔
    (p.mapping.fold channel, p.mapping.fold (Hostmask.nickOf x)) ∈ p.members

/-- A user is found exactly if the picture knows the nickname. -/
theorem Tracks.isSome_client?_iff {n : Network} {p : Picture} (h : Tracks n p) (x : String) :
    (n.client? x).isSome = true ↔ p.Knows (n.mapping.fold (Hostmask.nickOf x)) := by
  have hNone := h.findId?_eq_none_iff x
  cases hId : n.findId? x with
  | none =>
      rw [client?, Roster.find?, show n.roster.findId? x = none from hId]
      exact iff_of_false (by simp) (hNone.mp hId)
  | some id =>
      obtain ⟨c, hc, _⟩ := (h.findId?_iff x id).mp hId
      rw [client?, Roster.find?, show n.roster.findId? x = some id from hId, Option.bind_some, hc]
      refine iff_of_true rfl ?_
      by_contra hUnknown
      rw [hNone.mpr hUnknown] at hId
      cases hId

/-- A member is found exactly if the picture has the pair. -/
theorem Tracks.isSome_member?_iff {n : Network} {p : Picture} (h : Tracks n p)
    (channel x : String) :
    (n.member? channel x).isSome = true ↔
      (n.mapping.fold channel, n.mapping.fold (Hostmask.nickOf x)) ∈ p.members := by
  cases hId : n.findId? x with
  | none =>
      rw [member?, hId]
      refine iff_of_false (by simp) fun hIn => ?_
      exact (h.findId?_eq_none_iff x).mp hId (Or.inr ⟨_, hIn, rfl⟩)
  | some id =>
      obtain ⟨c, hc, hNick⟩ := (h.findId?_iff x id).mp hId
      rw [member?, hId, Option.bind_some, ← hNick, h.mem_members_of_get? hc, ← h.key_eq]
      cases hChannel : n.channel? channel with
      | none =>
          refine iff_of_false (by simp) ?_
          rintro ⟨d, hd, _⟩
          rw [channel?, ChannelTable.get?, hd] at hChannel
          cases hChannel
      | some d =>
          rw [Option.bind_some, ChannelTable.hasMember_iff_of_get? hChannel]
          rfl

/-- What records tell and what the picture tells agree, in both directions. -/
theorem Tracks.agrees {n : Network} {p : Picture} (h : Tracks n p) : n.Agrees p := by
  constructor
  case consistent => exact h.consistent
  case mapping => exact h.mapping.symm
  case ownNick =>
    obtain ⟨me, c, hMe, hc, hNick⟩ := h.own
    rw [h.mapping, ← hNick, ownNick?, ownClient?, hMe, Option.bind_some, hc]
    rfl
  case isOwn =>
    rw [h.mapping]
    exact h.isOwn_iff
  case clients =>
    intro u
    rw [h.mapping, h.knows_iff]
    constructor
    · rintro ⟨id, c, hc, rfl⟩
      refine ⟨id, ⟨c, hc, rfl⟩, ?_⟩
      rintro i ⟨d, hd, hSame⟩
      exact h.unique hd hc hSame
    · rintro ⟨id, ⟨c, hc, hFold⟩, _⟩
      exact ⟨id, c, hc, hFold⟩
  case client? =>
    rw [h.mapping]
    exact h.isSome_client?_iff
  case channels => exact fun key => (h.channels key).symm
  case members =>
    rw [h.mapping]
    exact h.members
  case member? =>
    rw [h.mapping]
    exact h.isSome_member?_iff

end Network

namespace Session

/-- Whatever lines come after the greeting, the records tell what the lines tell. -/
theorem heard_agrees {s : Session} {m : CaseMapping} {own : String} (h : s.JustNamed m own)
    (texts : List (String × Moment))
    (hAdmits : (Picture.new m own).AdmitsAll (texts.map Prod.fst)) :
    (s.heard texts).network.Agrees ((Picture.new m own).run (texts.map Prod.fst)) :=
  (h.follows.heard texts hAdmits).tracks.agrees

/-- We come into a channel where someone is, and who then takes another nickname. -/
theorem heard_agrees_of_three :
    ((new {} fun _ => .standard).dispatch ":irc 001 me :Hello" ⟨0, 0⟩).session.JustNamed
        .rfc1459 "me" ∧
      (((new {} fun _ => .standard).dispatch ":irc 001 me :Hello" ⟨0, 0⟩).session.heard
        [(":me!u@h JOIN #C", ⟨1, 1⟩), (":irc 353 me = #c :@me +Bob", ⟨2, 2⟩),
          (":bob!b@h NICK rob", ⟨3, 3⟩)]).network.Agrees
        ⟨.rfc1459, "me", {"#c"}, {("#c", "me"), ("#c", "rob")}⟩ := by
  have hGreeting : Picture.lineOf? ":irc 001 me :Hello" =
      some ⟨[], some "irc", "001", ["me", "Hello"]⟩ := by decide +kernel
  have hOwn : CaseMapping.rfc1459.fold (Hostmask.nickOf "me") = "me" := by decide +kernel
  have hNamed := justNamed_dispatch (s := new {} fun _ => .standard) rfl rfl ⟨0, 0⟩ hGreeting
    (by decide +kernel)
  change JustNamed _ _ (CaseMapping.rfc1459.fold (Hostmask.nickOf "me")) at hNamed
  rw [hOwn] at hNamed
  refine ⟨hNamed, ?_⟩
  have hTold : (Picture.new .rfc1459 "me").run
      [":me!u@h JOIN #C", ":irc 353 me = #c :@me +Bob", ":bob!b@h NICK rob"] =
      ⟨.rfc1459, "me", {"#c"}, {("#c", "me"), ("#c", "rob")}⟩ := by decide +kernel
  rw [← hTold]
  refine heard_agrees hNamed [(":me!u@h JOIN #C", ⟨1, 1⟩), (":irc 353 me = #c :@me +Bob", ⟨2, 2⟩),
    (":bob!b@h NICK rob", ⟨3, 3⟩)] ?_
  decide +kernel

end Session

end Irc
