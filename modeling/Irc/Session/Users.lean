import Irc.Session.Membership
/-!
Users: new nicknames, departures from the network, and what replies tell of them.
-/
namespace Irc.Session

def learn (n : Network) (nick : String) (f : Client → Client) : Network :=
  match n.findId? nick with
  | some id => n.modifyClient id f
  | none => n

def learnOwn (n : Network) (f : Client → Client) : Network :=
  match n.own with
  | some id => n.modifyClient id f
  | none => n

def nick (s : Session) (line : Line) : Step :=
  match line.param? 0 with
  | none => s.stay
  | some new =>
    let old := line.source.nick
    let n := (s.network.rename old new).2
    let attempted := if n.isOwn new then new else s.attemptedNick
    { s with network := n, attemptedNick := attempted }.tells [.nickChanged old new]

/-- QUIT: the user leaves each channel, and then the network. -/
def quit (s : Session) (line : Line) : Step :=
  let user := line.source
  let reason := line.param? 0
  let (channels, n) :=
    match s.network.findId? user.nick with
    | some id => s.network.quit id
    | none => ([], s.network)
  (s.withNetwork n).tells
    (channels.map (.channelQuit · user reason) ++ [.quit user reason])

/-- The real name in the last parameter of a WHO reply, after the number of hops. -/
def whoRealname (line : Line) : Option String :=
  (line.param? 7).bind fun t => (Text.cut ' ' t.toList).map fun p => String.ofList p.2

/-- What the flags of a WHO reply say of a user's presence: gone or here. -/
def presence (flags : List Char) (c : Client) : Client :=
  match flags with
  | 'G' :: _ => { c with away := true }
  | 'H' :: _ => { c with away := false, awayReason := none }
  | _ => c

/-- 352: what WHO tells of a user. Only some statuses may be shown, so they are added to those
known. -/
def whoReply (s : Session) (line : Line) : Step :=
  match line.params with
  | _ :: channel :: ident :: host :: _ :: nick :: flags :: _ =>
    match (s.network.client? nick).map Client.id with
    | none => s.stay
    | some id =>
      let n := s.network.modifyClient id fun c =>
        let c := presence flags.toList (c.learn ident host)
        { c with realname := (whoRealname line).or c.realname }
      let bits := flags.toList.filterMap n.modes.glyphBit?
      let n := n.modifyChannel channel fun c =>
        { c with members := c.members.modify id fun m =>
            { m with modes := bits.foldl (fun mask bit => mask.set bit true) m.modes } }
      (s.withNetwork n).stay
  | _ => s.stay

/-- 311: what WHOIS tells of a user. -/
def whoisUser (s : Session) (line : Line) : Step :=
  match line.params with
  | _ :: nick :: ident :: host :: _ =>
    (s.withNetwork (learn s.network nick fun c =>
      let c := c.learn ident host
      { c with realname := (line.param? 5).or c.realname })).stay
  | _ => s.stay

/-- 301: a user is away. -/
def awayReply (s : Session) (line : Line) : Step :=
  match line.param? 1 with
  | none => s.stay
  | some nick =>
    let reason := line.paramD 2
    (s.withNetwork (learn s.network nick fun c =>
      { c with away := true, awayReason := some reason })).tells [.userAway nick reason]

/-- 305 and 306: we are back, or away. -/
def ownAway (s : Session) (away : Bool) : Step :=
  (s.withNetwork (learnOwn s.network fun c =>
    { c with away := away, awayReason := if away then c.awayReason else none })).tells
      [.awayChanged away]

/-- AWAY: a user is away for a reason, or back without one. -/
def awayNotify (s : Session) (line : Line) : Step :=
  let nick := line.source.nick
  let reason := line.param? 0
  let s := s.withNetwork (learn s.network nick fun c =>
    { c with away := reason.isSome, awayReason := reason })
  match reason with
  | some text => s.tells [.userAway nick text]
  | none => s.stay

/-- 900 and 901: the account that we are logged in to, if any. -/
def ownAccount (s : Session) (account : Option String) : Step :=
  (s.withNetwork (learnOwn s.network fun c => { c with account := account })).stay

end Irc.Session
