import Irc.Proofs.Network.Ourselves
import Irc.Proofs.Session.Dealings
/-! Who we are. The server names us by a 001 line. From then on our identity stays what it is, and
its record is kept, whatever lines come: further 001 lines with other nicknames, lines that take us
out of a channel or out of the network, others who take our nickname, and announcements under which
our nickname and those of others come to be the same. -/
namespace Irc

namespace Network.KnowsUs

variable {n n' : Network}

/-- Leaving a channel, even as ourselves, does not change who we are. -/
theorem leave (h : n.KnowsUs) (channel nick : String) :
    n.KeepsUs (Session.leave n channel nick) := by
  unfold Session.leave
  split
  · exact h.removeChannel channel
  · split
    · exact h.part channel _
    · exact h.refl

/-- Our identity stays when everyone is taken out of a channel before we come in. -/
theorem startAfresh (h : n.KnowsUs) (channel : String) :
    n.KeepsUs (Session.startAfresh n channel) := by
  have hLeft := h.foldl_part channel (((n.channel? channel).map fun c => c.members.keys).getD [])
  exact hLeft.trans (hLeft.knows.keeps_of_roster rfl rfl)

theorem opened (h : n.KnowsUs) (channel mask : String) :
    n.KeepsUs (Session.opened n channel mask) := by
  unfold Session.opened
  split
  · exact h.startAfresh channel
  · exact h.refl

/-- A listed name does not change who we are, even if it is ours. -/
theorem listName (h : n.KnowsUs) (channel : String) (entry : List Char) :
    n.KeepsUs (Session.listName channel n entry) := by
  unfold Session.listName
  simp only
  split
  · exact h.refl
  · have hJoined := h.join channel
      (String.ofList (Session.splitGlyphs n.modes ModeMask.none entry).2)
    exact hJoined.trans (hJoined.knows.keeps_of_roster rfl rfl)

theorem foldl_listName (h : n.KnowsUs) (channel : String) (entries : List (List Char)) :
    n.KeepsUs (entries.foldl (Session.listName channel) n) := by
  induction entries generalizing n with
  | nil => exact h.refl
  | cons entry rest ih =>
      have hOne := h.listName channel entry
      exact hOne.trans (ih hOne.knows)

/-- A line, whatever it does to others, leaves us who we are. -/
theorem deals {line : Line} (h : n.KnowsUs) (hDeals : Session.Deals n line n') :
    n.KeepsUs n' := by
  cases hDeals with
  | standing same => exact h.keeps_of_sameStanding same
  | announcing support info family modes announced terms =>
      rw [terms]
      exact h.keeps_of_roster rfl rfl
  | greeting nick code => exact h.setOwn nick
  | joining channel mask command where_ same =>
      have hOpened := h.opened channel mask
      have hJoined := hOpened.trans (hOpened.knows.join channel mask)
      exact hJoined.trans (hJoined.knows.keeps_of_sameStanding same)
  | leaving channel nick command where_ => exact h.leave channel nick
  | naming channel entries => exact h.foldl_listName channel entries
  | quitting id command who => exact h.quit id
  | takingNick new command name => exact h.rename _ _

end Network.KnowsUs

namespace Session

/-- Earlier announcements may switch the case mapping when they are settled. -/
theorem keepsUs_settledFor {s : Session} (h : s.network.KnowsUs) (line : Line) :
    s.network.KeepsUs (s.settledFor line).network := by
  unfold settledFor
  split
  · have hUnder := h.underAnnounced
    exact hUnder.trans (hUnder.knows.keeps_of_roster rfl rfl)
  · exact h.refl

/-- Every deed but clearing keeps our identity. -/
theorem keepsUs_take {s : Session} (h : s.network.KnowsUs) {deed : Deed}
    (hOpen : deed ≠ .operation .clear) : s.network.KeepsUs (deed.take s).network := by
  cases deed with
  | operation op => exact h.apply fun hClear => hOpen (congrArg Deed.operation hClear)
  | text raw now =>
      rw [Deed.take]
      cases hLine : Picture.lineOf? raw with
      | none =>
          obtain ⟨error, hStep⟩ := s.dispatch_of_lineOf?_eq_none now hLine
          rw [hStep]
          exact h.refl
      | some line =>
          rw [s.dispatch_eq_handled now hLine]
          have hSettled := keepsUs_settledFor (s := s.noticing now) h line
          exact hSettled.trans (hSettled.knows.deals (does_handled _ line now).deals)

/-- Any number of deeds keep our identity, as long as nobody clears the network. -/
theorem keepsUs_through {s : Session} (h : s.network.KnowsUs) (deeds : List Deed)
    (hOpen : .operation .clear ∉ deeds) : s.network.KeepsUs (s.through deeds).network := by
  have hStep : ∀ s' deed, s.network.KeepsUs s'.network → deed ≠ .operation .clear →
      s.network.KeepsUs (Deed.take s' deed).network :=
    fun _ _ hKept hDeed => hKept.trans (keepsUs_take hKept.knows hDeed)
  refine through_induction (P := fun s' => s.network.KeepsUs s'.network) h.refl hStep deeds ?_
  rintro _ hIn rfl
  exact hOpen hIn

/-- Settling announcements does not forget them. -/
theorem support_settledFor (s : Session) (line : Line) :
    (s.settledFor line).network.support = s.network.support := by
  unfold settledFor
  split
  · exact s.network.underAnnounced_frame.2.1
  · rfl

/-- A 001 line, unless the server has claimed its code for lists, names us. -/
theorem exists_own_of_welcome {s : Session} (h : s.network.KnowsUs) {raw : String} {line : Line}
    (now : Moment) (hLine : Picture.lineOf? raw = some line)
    (hWelcome : line.Announces s.network.support 1) :
    ∃ me, (s.dispatch raw now).session.network.own = some me := by
  have hKnows := (keepsUs_settledFor (s := s.noticing now) h line).knows
  have hFree : line.Announces ((s.noticing now).settledFor line).network.support
      Numeric.welcome.code := by
    rw [support_settledFor]
    exact hWelcome
  rw [s.dispatch_eq_handled now hLine, Step.session_andThen, session_tells,
    handled_of_announces now hFree, Step.session_andThen]
  show ∃ me, (Session.welcome _ line).session.network.own = some me
  unfold welcome
  simp only
  split <;> exact hKnows.exists_own_setOwn _

/-- A 001 line gives a new session an identity, if it has none. From then on the session keeps it,
and the record under it, whatever comes from the server and whatever others do, until the network is
cleared. -/
theorem own_stable {s : Session} (hNew : s.network = Network.new) (deeds later : List Deed)
    (hOpen : .operation .clear ∉ deeds ++ later) :
    (∀ raw line now, Picture.lineOf? raw = some line →
      line.Announces (s.through deeds).network.support 1 →
      ∃ me, ((s.through deeds).dispatch raw now).session.network.own = some me) ∧
    ∀ me, (s.through deeds).network.own = some me →
      (s.through (deeds ++ later)).network.own = some me ∧
        ∃ c, (s.through (deeds ++ later)).network.roster.get? me = some c := by
  have hKnows : s.network.KnowsUs := by
    rw [hNew]
    exact Network.knowsUs_new
  rw [List.mem_append, not_or] at hOpen
  have hBefore := keepsUs_through hKnows deeds hOpen.1
  have hAfter := keepsUs_through hBefore.knows later hOpen.2
  refine ⟨fun raw line now => exists_own_of_welcome hBefore.knows now, fun me hOwn => ?_⟩
  rw [through_append]
  exact ⟨hAfter.own hOwn, hAfter.knows.record (hAfter.own hOwn)⟩

/-- Our nickname comes to be that of an older user, we quit, and the server calls us otherwise. -/
theorem own_stable_of_collision :
    let s := new {} fun _ => .standard
    let deeds : List Deed :=
      [.text ":irc 005 me\x7b CASEMAPPING=ascii :yes" ⟨0, 0⟩, .text ":me[!v@h JOIN #c" ⟨1, 0⟩,
        .text ":irc 001 me\x7b :Hello" ⟨2, 0⟩]
    let later : List Deed :=
      [.text ":me\x7b!u@h JOIN #c" ⟨3, 0⟩, .text ":irc 005 me\x7b CASEMAPPING=rfc1459 :yes" ⟨4, 0⟩,
        .text "PING :x" ⟨5, 0⟩, .operation (.quit 1), .text ":me[!u@h QUIT" ⟨6, 0⟩,
        .text ":irc 001 you :Hello" ⟨7, 0⟩]
    .operation .clear ∉ deeds ++ later ∧ (s.through deeds).network.own = some 1 ∧
      (s.through (deeds ++ later)).network.own = some 1 ∧
        ∃ c, (s.through (deeds ++ later)).network.roster.get? 1 = some c := by
  intro s deeds later
  have hOpen : .operation .clear ∉ deeds ++ later := by decide
  have hOwn : (s.through deeds).network.own = some 1 := by decide +kernel
  exact ⟨hOpen, hOwn, (own_stable rfl deeds later hOpen).2 1 hOwn⟩

end Session

end Irc
