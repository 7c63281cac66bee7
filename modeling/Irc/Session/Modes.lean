import Irc.Session.Basic
/-!
Mode changes, mode snapshots and list replies.
-/
namespace Irc.Session

/-- The events that tell of changes in a channel: one for each change of a member's status, and
one for all of them. -/
def modeEvents (channel setter : String) (changes : List ModeChange) : List Event :=
  (changes.filterMap fun c =>
    match c.kind, c.param with
    | .status .., some nick => some (.memberModeChanged channel setter nick c.letter c.adding)
    | _, _ => none) ++ [.channelModesChanged channel setter changes]

/-- Applies mode strings to a channel. A snapshot forgets first which flags and values were
set. Nothing happens if the channel is not known. -/
def changeChannelModes (s : Session) (channel : String) (pieces : List String) (setter : String)
    (time : Int) (snapshot : Bool) : Step :=
  match s.network.channel? channel with
  | none => s.stay
  | some c =>
    let c := if snapshot then { c with flags := ModeMask.none, params := SortedMap.empty } else c
    let changes := ModeChange.read s.network.modes pieces
    let (applied, c) := c.applyChanges s.network.findId? setter time changes
    let n := { s.network with channels := s.network.channels.put channel c }
    (s.withNetwork n).tells (modeEvents channel setter applied)

/-- Applies a user mode string; a snapshot starts from no modes. Nothing happens if the user is
not known. -/
def changeUserModes (s : Session) (nick modes : String) (snapshot : Bool) : Step :=
  match s.network.findId? nick, s.network.client? nick with
  | some id, some client =>
    let base := if snapshot then ModeMask.none else client.userModes
    let mask := s.network.modes.applyUser base modes
    (s.withNetwork (s.network.modifyClient id fun c => { c with userModes := mask })).tells
      [.userModesChanged nick modes]
  | _, _ => s.stay

/-- MODE, for a channel or a user. -/
def mode (s : Session) (line : Line) (now : Moment) : Step :=
  match line.params with
  | [] => s.stay
  | target :: pieces =>
    if s.network.isChannelName target then
      s.changeChannelModes target pieces line.source.nick (line.seconds now.seconds) false
    else s.changeUserModes target (" ".intercalate pieces) false

/-- 324: which flags and values are set in a channel. -/
def channelModeIs (s : Session) (line : Line) (now : Moment) : Step :=
  match line.params with
  | _ :: channel :: pieces =>
    s.changeChannelModes channel pieces line.source.nick (line.seconds now.seconds) true
  | _ => s.stay

/-- 221: which user modes we have. -/
def userModeIs (s : Session) (line : Line) : Step :=
  match line.params with
  | nick :: modes :: _ => s.changeUserModes nick modes true
  | _ => s.stay

/-- A line of a list reply. The channel gets a record if it has none. -/
def listReply (s : Session) (line : Line) (numeric : ListNumeric) : Step :=
  match line.param? 1 with
  | none => s.stay
  | some name =>
    let channel := s.network.channels.getOrNew name
    let outcome := channel.listLine? s.dialect numeric line.params
    let after := (outcome.map Prod.snd).getD channel
    let s := s.withNetwork { s.network with channels := s.network.channels.put name after }
    match outcome with
    | some (.ended letters, c) => s.tells (letters.map (.listRetrieved c.name))
    | _ => s.stay

/-- A list in groups of `n`, the last one of what is left; groups of one if `n` is zero. -/
def groups {α : Type} (n : Nat) : List α → List (List α)
  | [] => []
  | a :: rest => (a :: rest.take (n - 1)) :: groups n (rest.drop (n - 1))
termination_by l => l.length
decreasing_by simp only [List.length_drop, List.length_cons]; omega

/-- The lines that ask for the list modes of a channel, with as many letters each as the server
takes. -/
def listRequests (config : Config) (n : Network) (channel : String) : List String :=
  let letters :=
    match config.listModeLetters with
    | some letters => letters.toList
    | none => n.modes.listLetters
  (groups (n.support.modesPerLine?.getD 3) letters).map fun group =>
    "MODE " ++ channel ++ " " ++ String.ofList group

end Irc.Session
