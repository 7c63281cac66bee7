import Irc.Proofs.Network.OneMapping
import Irc.Proofs.Session.Dealings
import Irc.Proofs.Session.TableRebuild
/-! Lines and lookups. No line touches a copy of the mapping, except that the end of a run of 005
lines may change all of them at once. So in whatever state a network gets, names that compare as
equal lead to one user and to one channel. -/
namespace Irc

namespace Session

variable (s : Session) (line : Line) (now : Moment)

/-- The step leaves the copies of the mapping alone. -/
def KeepsMappings (step : Step) : Prop := step.session.network.mappings = s.network.mappings

variable {s line}

theorem keepsMappings_stay : s.KeepsMappings s.stay := rfl

theorem mappings_learn (n : Network) (nick : String) (f : Client → Client) :
    (learn n nick f).mappings = n.mappings := by
  unfold learn
  split <;> rfl

theorem mappings_learnOwn (n : Network) (f : Client → Client) :
    (learnOwn n f).mappings = n.mappings := by
  unfold learnOwn
  split <;> rfl

theorem mappings_learnAccount (n : Network) (id : ClientId) (line : Line) :
    (learnAccount n id line).mappings = n.mappings := by
  unfold learnAccount
  split <;> rfl

theorem keepsMappings_welcome : s.KeepsMappings (s.welcome line) := by
  have hNamed := s.network.mappings_setOwn ((line.param? 0).getD s.attemptedNick)
  unfold welcome
  simp only
  split <;> exact hNamed

theorem keepsMappings_motdEnd (missing : Bool) : s.KeepsMappings (s.motdEnd missing) := by
  unfold motdEnd
  split <;> rfl

theorem keepsMappings_nickInUse : s.KeepsMappings (s.nickInUse line) := by
  unfold nickInUse
  simp only
  split <;> rfl

theorem keepsMappings_serverPong : s.KeepsMappings (s.serverPong line now) := by
  unfold serverPong
  simp only
  split <;> rfl

/-- A JOIN touches no copy, ours included. -/
theorem keepsMappings_join : s.KeepsMappings (s.join line) := by
  unfold join
  split
  next channel mask _ _ =>
    have hFresh : (startAfresh s.network channel).mappings = s.network.mappings :=
      Network.mappings_foldl (fun n id => n.mappings_part channel id) _ s.network
    have hJoined : ∀ n : Network, n.mappings = s.network.mappings →
        (learnAccount (n.join channel mask).2 (n.join channel mask).1 line).mappings =
          s.network.mappings := by
      intro n hn
      rw [mappings_learnAccount, Network.mappings_join, hn]
    by_cases hOwn : s.network.isOwn (Hostmask.ofString mask).nick = true
    · simp only [if_pos hOwn]
      exact hJoined _ hFresh
    · simp only [if_neg hOwn]
      exact hJoined _ rfl
  next => exact keepsMappings_stay

theorem mappings_leave (n : Network) (channel nick : String) :
    (leave n channel nick).mappings = n.mappings := by
  unfold leave
  split
  · exact n.mappings_removeChannel channel
  · split
    · exact n.mappings_part channel _
    · rfl

theorem keepsMappings_part : s.KeepsMappings (s.part line) := by
  unfold part
  split
  · exact keepsMappings_stay
  · exact mappings_leave s.network _ _

theorem keepsMappings_kick : s.KeepsMappings (s.kick line) := by
  unfold kick
  split
  · exact mappings_leave s.network _ _
  · exact keepsMappings_stay

theorem mappings_listName (channel : String) (n : Network) (entry : List Char) :
    (listName channel n entry).mappings = n.mappings := by
  unfold listName
  simp only
  split
  · rfl
  · exact n.mappings_join channel _

theorem keepsMappings_names : s.KeepsMappings (s.names line) := by
  unfold names
  simp only
  split
  · exact keepsMappings_stay
  · split
    · exact Network.mappings_foldl (mappings_listName _) _ s.network
    · exact keepsMappings_stay

theorem keepsMappings_nick : s.KeepsMappings (s.nick line) := by
  unfold nick
  split
  · exact keepsMappings_stay
  · exact s.network.mappings_rename _ _

theorem keepsMappings_quit : s.KeepsMappings (s.quit line) := by
  unfold quit
  simp only
  cases s.network.findId? line.source.nick with
  | none => rfl
  | some id => exact s.network.mappings_quit id

theorem keepsMappings_joinRefused (code : Nat) : s.KeepsMappings (s.joinRefused line code) := by
  unfold joinRefused
  split <;> rfl

theorem keepsMappings_endOfNames : s.KeepsMappings (s.endOfNames line) := by
  unfold endOfNames
  split
  · rfl
  · split <;> rfl

theorem keepsMappings_invite : s.KeepsMappings (s.invite line) := by
  unfold invite
  split <;> rfl

theorem keepsMappings_changeTopic (channel : String) (live : Bool) (f : Topic → Topic) :
    s.KeepsMappings (s.changeTopic channel live f) := by
  unfold changeTopic
  split <;> rfl

theorem keepsMappings_creationTime : s.KeepsMappings (s.creationTime line) := by
  unfold creationTime
  split <;> rfl

theorem keepsMappings_changeChannelModes (channel : String) (pieces : List String)
    (setter : String) (time : Int) (snapshot : Bool) :
    s.KeepsMappings (s.changeChannelModes channel pieces setter time snapshot) := by
  unfold changeChannelModes
  split <;> rfl

theorem keepsMappings_changeUserModes (nick modes : String) (snapshot : Bool) :
    s.KeepsMappings (s.changeUserModes nick modes snapshot) := by
  unfold changeUserModes
  split <;> rfl

/-- A list reply touches no copy, even if it makes a record for the channel. -/
theorem keepsMappings_listReply (numeric : ListNumeric) :
    s.KeepsMappings (s.listReply line numeric) := by
  unfold listReply
  split
  · rfl
  · simp only
    split <;> rfl

theorem keepsMappings_whoReply : s.KeepsMappings (s.whoReply line) := by
  unfold whoReply
  split
  · split <;> rfl
  · rfl

theorem keepsMappings_whoisUser : s.KeepsMappings (s.whoisUser line) := by
  unfold whoisUser
  split
  · exact mappings_learn s.network _ _
  · rfl

theorem keepsMappings_awayReply : s.KeepsMappings (s.awayReply line) := by
  unfold awayReply
  split
  · rfl
  · exact mappings_learn s.network _ _

theorem keepsMappings_awayNotify : s.KeepsMappings (s.awayNotify line) := by
  unfold awayNotify
  simp only
  split <;> exact mappings_learn s.network _ _

theorem keepsMappings_privmsg : s.KeepsMappings (s.privmsg line) := by
  unfold privmsg
  split
  · exact mappings_learn s.network _ _
  · rfl

theorem keepsMappings_notice : s.KeepsMappings (s.notice line) := by
  unfold notice
  split
  · simp only
    split
    · rfl
    · exact mappings_learn s.network _ _
  · rfl

/-- No numeric touches a copy, not even those that announce. -/
theorem keepsMappings_namedNumeric (numeric : Numeric) :
    s.KeepsMappings (s.namedNumeric line now numeric) := by
  unfold namedNumeric
  split
  · exact keepsMappings_joinRefused _
  · cases numeric
    case welcome => exact keepsMappings_welcome
    case endOfMotd => exact keepsMappings_motdEnd false
    case noMotd => exact keepsMappings_motdEnd true
    case nicknameInUse => exact keepsMappings_nickInUse
    case unavailResource => exact keepsMappings_nickInUse
    case noTopic =>
      simp only [noTopic]
      split
      · rfl
      · exact keepsMappings_changeTopic ..
    case topic =>
      simp only [topicIs]
      split
      · rfl
      · exact keepsMappings_changeTopic ..
    case topicWhoTime =>
      simp only [topicWhoTime]
      split
      · rfl
      · exact keepsMappings_changeTopic ..
    case namReply => exact keepsMappings_names
    case endOfNames => exact keepsMappings_endOfNames
    case creationTime => exact keepsMappings_creationTime
    case whoReply => exact keepsMappings_whoReply
    case whoisUser => exact keepsMappings_whoisUser
    case away => exact keepsMappings_awayReply
    case unaway => exact mappings_learnOwn s.network _
    case nowAway => exact mappings_learnOwn s.network _
    case loggedIn => exact mappings_learnOwn s.network _
    case loggedOut => exact mappings_learnOwn s.network _
    case channelModeIs =>
      simp only [channelModeIs]
      split
      · exact keepsMappings_changeChannelModes ..
      · rfl
    case umodeIs =>
      simp only [userModeIs]
      split
      · exact keepsMappings_changeUserModes ..
      · rfl
    all_goals rfl

/-- No word touches a copy. -/
theorem keepsMappings_command : s.KeepsMappings (s.command line now) := by
  unfold command
  split
  case h_2 => exact keepsMappings_serverPong now
  case h_4 => exact keepsMappings_join
  case h_5 => exact keepsMappings_part
  case h_6 => exact keepsMappings_kick
  case h_7 =>
    simp only [topic]
    split
    · rfl
    · exact keepsMappings_changeTopic ..
  case h_8 => exact keepsMappings_invite
  case h_9 => exact keepsMappings_nick
  case h_10 => exact keepsMappings_quit
  case h_11 => exact keepsMappings_awayNotify
  case h_12 =>
    simp only [mode]
    split
    · rfl
    · split
      · exact keepsMappings_changeChannelModes ..
      · exact keepsMappings_changeUserModes ..
  case h_13 => exact keepsMappings_privmsg
  case h_14 => exact keepsMappings_notice
  all_goals rfl

variable (s line)

/-- No line touches a copy, once what was announced before it is settled. -/
theorem keepsMappings_handled : s.KeepsMappings (s.handled line now) := by
  unfold handled
  split
  · unfold numericReply
    rw [KeepsMappings, Step.session_andThen, session_tells]
    split
    · exact keepsMappings_listReply _
    · split
      · exact keepsMappings_namedNumeric now _
      · rfl
  · exact keepsMappings_command now

/-- Settling announcements changes all copies together. -/
theorem oneMapping_settledFor (h : s.network.OneMapping) :
    (s.settledFor line).network.OneMapping := by
  unfold settledFor
  split
  · have hUnder : s.network.underAnnounced.OneMapping := by
      unfold Network.underAnnounced
      split
      · exact h.setMapping _
      · exact h
    exact hUnder.congr rfl
  · exact h

/-- Every text leaves a network with one mapping. -/
theorem oneMapping_dispatch {s : Session} (h : s.network.OneMapping) (raw : String) (now : Moment) :
    (s.dispatch raw now).session.network.OneMapping := by
  cases hLine : Picture.lineOf? raw with
  | none =>
      obtain ⟨_, he⟩ := dispatch_of_lineOf?_eq_none s now hLine
      rw [he]
      exact h
  | some line =>
      have hSettled : ((s.noticing now).settledFor line).network.OneMapping :=
        oneMapping_settledFor _ line h
      rw [dispatch_eq_handled s now hLine]
      exact hSettled.congr (keepsMappings_handled _ line now)

end Session

namespace Network

/-- The networks that a session comes to have: whatever is done to users and channels, however
names come to be compared, whichever lines arrive in whichever state of the session. The opening
of a connection and the keepalive leave the network alone, and the end of a connection clears it. -/
inductive Reached : Network → Prop
  | new : Reached new
  | apply {n : Network} (op : Op) : Reached n → Reached (n.apply op)
  | setMapping {n : Network} (m : CaseMapping) : Reached n → Reached (n.setMapping m)
  | dispatch {s : Session} (raw : String) (now : Moment) :
      Reached s.network → Reached (s.dispatch raw now).session.network

/-- Every network that can be reached has one mapping. -/
theorem Reached.oneMapping {n : Network} (h : n.Reached) : n.OneMapping := by
  induction h with
  | new => exact ⟨rfl, rfl⟩
  | apply op _ ih => exact ih.congr (mappings_apply _ op)
  | setMapping m _ ih => exact ih.setMapping m
  | dispatch raw now _ ih => exact Session.oneMapping_dispatch ih raw now

/-- Names compare as equal exactly if they fold alike, folding twice is folding once, and the parts
of a folded source are the folded parts of the source. Every network that is reached has one
mapping; in a network with one mapping, names that fold alike lead to the same user, who is us or is
not, to the same channel, for reading and for changing it, and to the same membership. -/
theorem names_compare_as_filed :
    (∀ (m : CaseMapping) (a b : String), m.equal a b = true ↔ m.fold a = m.fold b) ∧
    (∀ (m : CaseMapping) (s : String), m.fold (m.fold s) = m.fold s) ∧
    (∀ (m : CaseMapping) (raw : String),
      Hostmask.ofString (m.fold raw) = (Hostmask.ofString raw).fold m) ∧
    (∀ n : Network, n.Reached → n.OneMapping) ∧
    ∀ n : Network, n.OneMapping → ∀ a b : String, n.fold a = n.fold b →
      n.findId? a = n.findId? b ∧ n.isOwn a = n.isOwn b ∧ n.channel? a = n.channel? b ∧
      (∀ f, n.modifyChannel a f = n.modifyChannel b f) ∧
      ∀ c d : String, n.fold c = n.fold d → n.member? c a = n.member? d b := by
  refine ⟨CaseMapping.equal_iff, CaseMapping.fold_idem, Hostmask.ofString_fold,
    fun _ h => h.oneMapping, ?_⟩
  intro n hn a b h
  refine ⟨hn.findId?_congr h, hn.isOwn_congr h, hn.channel?_congr h, hn.modifyChannel_congr h, ?_⟩
  intro c d hChannel
  exact hn.member?_congr hChannel h

/-- A member of a channel, named in two ways. -/
theorem names_compare_as_filed_of_brackets :
    let n := (new.apply (.setOwn "Me")).apply (.join "#A[~]" "Bob[1]!u@h")
    n.Reached ∧ n.OneMapping ∧ n.fold "Bob[1]!u@h" = n.fold "bOB\x7b1\x7d!U@H" ∧
      n.fold "#A[~]" = n.fold "#a\x7b^\x7d" ∧
      n.findId? "bOB\x7b1\x7d!U@H" = some 1 ∧ n.isOwn "bOB\x7b1\x7d!U@H" = false ∧
      (n.channel? "#a\x7b^\x7d").map Channel.name = some "#A[~]" ∧
      n.member? "#a\x7b^\x7d" "bOB\x7b1\x7d!U@H" = some { client := 1 } := by
  intro n
  have hReached : n.Reached := .apply _ (.apply _ .new)
  have hNick : n.fold "Bob[1]!u@h" = n.fold "bOB\x7b1\x7d!U@H" := by decide
  have hChannel : n.fold "#A[~]" = n.fold "#a\x7b^\x7d" := by decide
  have hn := names_compare_as_filed.2.2.2.1 n hReached
  obtain ⟨hId, hOwn, _, _, hMember⟩ := names_compare_as_filed.2.2.2.2 n hn _ _ hNick
  obtain ⟨_, _, hGet, _, _⟩ := names_compare_as_filed.2.2.2.2 n hn _ _ hChannel
  refine ⟨hReached, hn, hNick, hChannel, ?_, ?_, ?_, ?_⟩
  · exact hId.symm.trans (by decide)
  · exact hOwn.symm.trans (by decide)
  · exact (congrArg (Option.map Channel.name) hGet.symm).trans (by decide)
  · exact (hMember _ _ hChannel).symm.trans (by decide)

end Network

end Irc
