import Irc.Proofs.Network.Collection
import Irc.Proofs.Session.Waking
/-! Before the server greets us. Only a greeting gives us an identity, and until then only a refusal
changes which nickname we ask for. -/
namespace Irc

namespace Network

/-- When somebody leaves the network we stay who we are. -/
theorem own_quit (n : Network) (id : ClientId) : (n.quit id).2.own = n.own := by
  cases h : n.roster.get? id with
  | none =>
      unfold quit
      rw [h]
  | some client => rw [quit_of_get? h]

theorem own_evict (n : Network) (id : ClientId) (nick : String) :
    (n.evict id nick).own = n.own := by
  unfold evict
  split
  · split
    · rfl
    · exact n.own_quit _
  · rfl

end Network

namespace Session

variable {s : Session} {line : Line} {now : Moment}

theorem own_leave (n : Network) (channel nick : String) : (leave n channel nick).own = n.own := by
  unfold leave
  split
  · exact (n.spares_removeChannel channel).own
  · split
    · exact (n.spares_part channel _).own
    · rfl

theorem own_opened (n : Network) (channel mask : String) :
    (opened n channel mask).own = n.own := by
  unfold opened
  split
  · exact (n.spares_foldl_part channel _).own
  · rfl

theorem own_foldl_listName (channel : String) (entries : List (List Char)) (n : Network) :
    (entries.foldl (listName channel) n).own = n.own := by
  refine List.foldlRecOn (motive := fun n' : Network => n'.own = n.own) entries _ rfl ?_
  intro n' hOwn entry _
  unfold listName
  simp only
  split <;> exact hOwn

/-- A renaming does not tell us who we are. -/
theorem own_rename_of_none {n : Network} (h : n.own = none) (old new : String) :
    (n.rename old new).2.own = none := by
  rcases n.rename_cases old new with ⟨_, he⟩ | ⟨id, _, he⟩
  · rw [he, h]
  · rw [he]
    exact (n.own_evict id new).trans h

/-- Only a greeting says who we are. -/
theorem Deals.own_eq_none {n n' : Network} (h : Deals n line n') (hCode : line.numeric? ≠ some 1)
    (hOwn : n.own = none) : n'.own = none := by
  cases h with
  | standing same => exact same.own_eq.trans hOwn
  | announcing support info family modes announced terms => rw [terms, hOwn]
  | greeting nick code => exact absurd code hCode
  | joining channel mask command where_ same =>
      exact same.own_eq.trans ((own_opened n channel mask).trans hOwn)
  | leaving channel nick command where_ => exact (own_leave n channel nick).trans hOwn
  | naming channel entries => exact (own_foldl_listName channel entries n).trans hOwn
  | quitting id command who => exact (n.own_quit id).trans hOwn
  | takingNick new command name => exact own_rename_of_none hOwn _ new

/-- The nickname that we have asked for last, and whether it is not the first one. -/
def attempt (s : Session) : String × Bool := (s.attemptedNick, s.triedAlt)

theorem attempt_changeTopic (channel : String) (live : Bool) (f : Topic → Topic) :
    (s.changeTopic channel live f).session.attempt = s.attempt := by
  unfold changeTopic
  split <;> rfl

theorem attempt_changeChannelModes (channel : String) (pieces : List String) (setter : String)
    (time : Int) (snapshot : Bool) :
    (s.changeChannelModes channel pieces setter time snapshot).session.attempt = s.attempt := by
  unfold changeChannelModes
  split <;> rfl

theorem attempt_changeUserModes (nick modes : String) (snapshot : Bool) :
    (s.changeUserModes nick modes snapshot).session.attempt = s.attempt := by
  unfold changeUserModes
  split <;> rfl

theorem attempt_listReply (line : Line) (numeric : ListNumeric) :
    (s.listReply line numeric).session.attempt = s.attempt := by
  unfold listReply
  simp only
  split
  · rfl
  · split <;> rfl

/-- Of all numerics, only refusals of the nickname change what is asked for next. -/
theorem attempt_namedNumeric (line : Line) (now : Moment) {n : Numeric}
    (hTaken : n ≠ .nicknameInUse ∧ n ≠ .unavailResource) :
    (s.namedNumeric line now n).session.attempt = s.attempt := by
  unfold namedNumeric
  split
  · unfold joinRefused
    split <;> rfl
  · cases n
    case nicknameInUse => exact absurd rfl hTaken.1
    case unavailResource => exact absurd rfl hTaken.2
    case welcome =>
      simp only [welcome]
      split <;> rfl
    case endOfMotd =>
      simp only [motdEnd]
      split <;> rfl
    case noMotd =>
      simp only [motdEnd]
      split <;> rfl
    case noTopic =>
      simp only [noTopic]
      split
      · rfl
      · exact attempt_changeTopic ..
    case topic =>
      simp only [topicIs]
      split
      · rfl
      · exact attempt_changeTopic ..
    case topicWhoTime =>
      simp only [topicWhoTime]
      split
      · rfl
      · exact attempt_changeTopic ..
    case namReply =>
      simp only [names]
      split
      · rfl
      · split <;> rfl
    case endOfNames =>
      simp only [endOfNames]
      split
      · rfl
      · split <;> rfl
    case creationTime =>
      simp only [creationTime]
      split <;> rfl
    case whoReply =>
      simp only [whoReply]
      split
      · split <;> rfl
      · rfl
    case whoisUser =>
      simp only [whoisUser]
      split <;> rfl
    case away =>
      simp only [awayReply]
      split <;> rfl
    case channelModeIs =>
      simp only [channelModeIs]
      split
      · exact attempt_changeChannelModes ..
      · rfl
    case umodeIs =>
      simp only [userModeIs]
      split
      · exact attempt_changeUserModes ..
      · rfl
    all_goals rfl

/-- No code but those of refusals changes what is asked for next. -/
theorem attempt_numericReply (line : Line) (now : Moment) {code : Nat}
    (hTaken : code ≠ 433 ∧ code ≠ 437) :
    (s.numericReply line now code).session.attempt = s.attempt := by
  unfold numericReply
  rw [Step.session_andThen, session_tells]
  cases ListNumeric.ofCode? s.network.support code with
  | some list => exact attempt_listReply line list
  | none =>
      cases hNumeric : Numeric.ofCode? code with
      | none => rfl
      | some n =>
          refine attempt_namedNumeric line now ⟨fun h => hTaken.1 ?_, fun h => hTaken.2 ?_⟩
          · exact (Numeric.eq_iff_of_ofCode? hNumeric).mp h
          · exact (Numeric.eq_iff_of_ofCode? hNumeric).mp h

/-- As long as nobody is ourselves, nobody's new nickname is ours. -/
theorem attempt_nick (hOwn : s.network.own = none) (line : Line) :
    (s.nick line).session.attempt = s.attempt := by
  unfold nick
  split
  · rfl
  next new _ =>
    have hNotOurs : (s.network.rename line.source.nick new).2.isOwn new = false := by
      rw [Network.isOwn, own_rename_of_none hOwn]
      rfl
    simp only [hNotOurs, Bool.false_eq_true, if_false]
    rfl

/-- Before we have an identity, no word changes what is asked for; a NICK cannot be ours. -/
theorem attempt_command (hOwn : s.network.own = none) (line : Line) (now : Moment) :
    (s.command line now).session.attempt = s.attempt := by
  unfold command
  split
  case h_9 => exact attempt_nick hOwn line
  case h_2 =>
    simp only [serverPong]
    split <;> rfl
  case h_4 =>
    simp only [join]
    split
    · split <;> rfl
    · rfl
  case h_5 =>
    simp only [part]
    split <;> rfl
  case h_6 =>
    simp only [kick]
    split <;> rfl
  case h_7 =>
    simp only [topic]
    split
    · rfl
    · exact attempt_changeTopic ..
  case h_8 =>
    simp only [invite]
    split <;> rfl
  case h_11 =>
    simp only [awayNotify]
    split <;> rfl
  case h_12 =>
    simp only [mode]
    split
    · rfl
    · split
      · exact attempt_changeChannelModes ..
      · exact attempt_changeUserModes ..
  case h_13 =>
    simp only [privmsg]
    split <;> rfl
  case h_14 =>
    simp only [notice]
    split
    · split <;> rfl
    · rfl
  all_goals rfl

/-- No line but a refusal changes what is asked for, until we are greeted. -/
theorem attempt_handled (hOwn : s.network.own = none) (line : Line) (now : Moment)
    (hTaken : line.numeric? ≠ some 433 ∧ line.numeric? ≠ some 437) :
    (s.handled line now).session.attempt = s.attempt := by
  unfold handled
  split
  next code hCode =>
    rw [hCode] at hTaken
    exact attempt_numericReply line now
      ⟨fun h => hTaken.1 (congrArg some h), fun h => hTaken.2 (congrArg some h)⟩
  · exact attempt_command hOwn line now

end Session

end Irc
