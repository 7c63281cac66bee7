import Irc.Session.Modes
/-!
Who comes into a channel and who leaves it, and the lists of names.
-/
namespace Irc.Session

/-- Our own JOIN starts the channel's membership afresh: whoever was listed has to be listed
again. -/
def startAfresh (n : Network) (channel : String) : Network :=
  let stale := ((n.channel? channel).map fun c => c.members.keys).getD []
  (stale.foldl (fun n id => (n.part channel id).2) n).modifyChannel channel
    fun c => { c with namesComplete := false }

/-- The account and the real name that an extended JOIN tells. -/
def learnAccount (n : Network) (id : ClientId) (line : Line) : Network :=
  match line.params with
  | _ :: account :: realname :: _ =>
    n.modifyClient id fun c =>
      { c with account := if account = "*" then none else some account, realname := some realname }
  | _ => n

/-- JOIN, of us or of another. -/
def join (s : Session) (line : Line) : Step :=
  match line.param? 0, line.source? with
  | some channel, some mask =>
    let user := Hostmask.ofString mask
    let own := s.network.isOwn user.nick
    let n := if own then startAfresh s.network channel else s.network
    let (id, n) := n.join channel mask
    let n := learnAccount n id line
    let s := s.withNetwork n
    if own then
      { session := s
        events := [.selfJoined channel]
        lines := if s.config.requestListModesOnJoin then listRequests s.config n channel else [] }
    else s.tells [.joined channel user]
  | _, _ => s.stay

/-- A user is gone from a channel; if it is us, so is the channel. -/
def leave (n : Network) (channel nick : String) : Network :=
  if n.isOwn nick then (n.removeChannel channel).2
  else
    match n.findId? nick with
    | some id => (n.part channel id).2
    | none => n

def part (s : Session) (line : Line) : Step :=
  match line.param? 0 with
  | none => s.stay
  | some channel =>
    let user := line.source
    (s.withNetwork (leave s.network channel user.nick)).tells
      [.parted channel user (line.param? 1)]

def kick (s : Session) (line : Line) : Step :=
  match line.params with
  | channel :: nick :: rest =>
    (s.withNetwork (leave s.network channel nick)).tells
      [.kicked channel line.source nick rest.head?]
  | _ => s.stay

def joinRefused (s : Session) (line : Line) (code : Nat) : Step :=
  match line.param? 1 with
  | none => s.stay
  | some channel => s.tells [.joinRefused channel code (line.paramD 2)]

/-- The statuses that the glyphs in front of a name show, and the name. -/
def splitGlyphs (table : ModeTable) (mask : ModeMask) : List Char → ModeMask × List Char
  | [] => (mask, [])
  | c :: rest =>
    match table.glyphBit? c with
    | some bit => splitGlyphs table (mask.set bit true) rest
    | none => (mask, c :: rest)

/-- Takes in one entry of a list of names: the glyphs of a member's statuses and the member. -/
def listName (channel : String) (n : Network) (entry : List Char) : Network :=
  let (mask, name) := splitGlyphs n.modes ModeMask.none entry
  if name.isEmpty then n
  else
    let (id, n) := n.join channel (String.ofList name)
    n.modifyChannel channel fun c =>
      { c with members := c.members.modify id fun m => { m with modes := mask } }

/-- 353: names in a channel that we know. Some servers leave out the parameter before the
channel. -/
def names (s : Session) (line : Line) : Step :=
  let found :=
    match line.params with
    | _ :: _ :: channel :: names :: _ => some (channel, names)
    | [_, channel, names] => some (channel, names)
    | _ => none
  match found with
  | none => s.stay
  | some (channel, names) =>
    if s.network.channels.contains channel then
      (s.withNetwork ((Text.words names.toList).foldl (listName channel) s.network)).stay
    else s.stay

/-- 366: the list of names is complete. -/
def endOfNames (s : Session) (line : Line) : Step :=
  match line.param? 1 with
  | none => s.stay
  | some channel =>
    if s.network.channels.contains channel then
      (s.withNetwork (s.network.modifyChannel channel fun c => { c with namesComplete := true })).tells
        [.namesComplete channel]
    else s.stay

def invite (s : Session) (line : Line) : Step :=
  match line.param? 1 with
  | none => s.stay
  | some channel => s.tells [.invited channel line.source]

end Irc.Session
