import Irc.Lifecycle
import Irc.Line.Raw
import Irc.Hostmask
import Irc.Mode.Change
import Irc.Network.Channel
/-!
What listeners are told. Each line from the server becomes a few events, and so does each
change of the connection itself; listeners hear them after the state has changed.
-/
namespace Irc

/-- What the text of a message amounts to. -/
inductive Utterance
  | text (text : String)
  | notice (text : String)
  /-- Something that the sender does, as in `/me waves`. -/
  | action (text : String)
  /-- A request to the other side's client, its command in upper case. -/
  | request (command : String) (arguments : String)
  | reply (command : String) (arguments : String)
deriving Repr, DecidableEq

/-- Something that has happened on the connection. -/
inductive Event
  /-- A line has arrived; it is given without its terminator. -/
  | dataIn (line : String)
  /-- A line has been queued for sending. -/
  | dataOut (line : String)
  | malformed (line : String) (error : LineError)
  | numeric (code : Nat) (params : List String)
  | phaseChanged (source target : Phase)
  | registered (nick : String)
  | serverInfo (server version : String)
  /-- The mode table has been made anew from the announcements. -/
  | tableRebuilt
  | serverReady
  | nickInUse (nick : String)
  | motdStart (text : String)
  | motdLine (text : String)
  | motdEnd (missing : Bool)
  | selfJoined (channel : String)
  | joinRefused (channel : String) (code : Nat) (reason : String)
  | joined (channel : String) (user : Hostmask)
  | parted (channel : String) (user : Hostmask) (reason : Option String)
  | kicked (channel : String) (kicker : Hostmask) (nick : String) (reason : Option String)
  /-- A user who has left the network has left this channel with it. -/
  | channelQuit (channel : String) (user : Hostmask) (reason : Option String)
  | quit (user : Hostmask) (reason : Option String)
  | nickChanged (old new : String)
  /-- A topic has been set, or told by a reply if not `live`. -/
  | topicChanged (channel : String) (topic : Topic) (live : Bool)
  | namesComplete (channel : String)
  | channelModesChanged (channel setter : String) (changes : List ModeChange)
  | memberModeChanged (channel setter nick : String) (letter : Char) (adding : Bool)
  | listRetrieved (channel : String) (letter : Char)
  | userModesChanged (nick modes : String)
  | channelMessage (channel : String) (sender : Hostmask) (utterance : Utterance)
  | privateMessage (sender : Hostmask) (utterance : Utterance)
  /-- A notice from a server, or from anyone before registration. -/
  | serverNotice (source text : String)
  | invited (channel : String) (sender : Hostmask)
  | wallops (sender : Hostmask) (text : String)
  | awayChanged (away : Bool)
  | userAway (nick reason : String)
  | serverPing (token : String)
  | pingSent (token : String)
  | pingAnswered (lag : Nat)
  | pingFailed (elapsed : Nat)
  | serverError (message : String)
  | closed (reason : Option String)
deriving DecidableEq

inductive EventKind
  | dataIn | dataOut | malformed | numeric | stateChanged | registered | serverInfo | post005
  | serverReady | nickInUse | motdStart | motdLine | motdEnd | channelSelfJoin | joinFailed
  | channelJoin | channelPart | channelKick | channelQuit | quit | nickChanged | topicChanged
  | namesComplete | channelModeChanged | channelUserModeChanged | listModesRetrieved
  | userModeChanged | channelMessage | channelAction | channelCtcp | channelCtcpReply
  | channelNotice | privateMessage | privateAction | privateCtcp | privateCtcpReply
  | privateNotice | serverNotice | invite | wallops | awayState | userAway | serverPing
  | pingSent | pingSuccess | pingFailed | serverError | socketClosed
deriving Repr, DecidableEq

namespace EventKind

def all : List EventKind :=
  [dataIn, dataOut, malformed, numeric, stateChanged, registered, serverInfo, post005,
    serverReady, nickInUse, motdStart, motdLine, motdEnd, channelSelfJoin, joinFailed,
    channelJoin, channelPart, channelKick, channelQuit, quit, nickChanged, topicChanged,
    namesComplete, channelModeChanged, channelUserModeChanged, listModesRetrieved,
    userModeChanged, channelMessage, channelAction, channelCtcp, channelCtcpReply,
    channelNotice, privateMessage, privateAction, privateCtcp, privateCtcpReply,
    privateNotice, serverNotice, invite, wallops, awayState, userAway, serverPing,
    pingSent, pingSuccess, pingFailed, serverError, socketClosed]

def name : EventKind → String
  | dataIn => "DataIn"
  | dataOut => "DataOut"
  | malformed => "Malformed"
  | numeric => "Numeric"
  | stateChanged => "StateChanged"
  | registered => "Registered"
  | serverInfo => "ServerInfo"
  | post005 => "Post005"
  | serverReady => "ServerReady"
  | nickInUse => "NickInUse"
  | motdStart => "MotdStart"
  | motdLine => "MotdLine"
  | motdEnd => "MotdEnd"
  | channelSelfJoin => "ChannelSelfJoin"
  | joinFailed => "JoinFailed"
  | channelJoin => "ChannelJoin"
  | channelPart => "ChannelPart"
  | channelKick => "ChannelKick"
  | channelQuit => "ChannelQuit"
  | quit => "Quit"
  | nickChanged => "NickChanged"
  | topicChanged => "TopicChanged"
  | namesComplete => "NamesComplete"
  | channelModeChanged => "ChannelModeChanged"
  | channelUserModeChanged => "ChannelUserModeChanged"
  | listModesRetrieved => "ListModesRetrieved"
  | userModeChanged => "UserModeChanged"
  | channelMessage => "ChannelMessage"
  | channelAction => "ChannelAction"
  | channelCtcp => "ChannelCtcp"
  | channelCtcpReply => "ChannelCtcpReply"
  | channelNotice => "ChannelNotice"
  | privateMessage => "PrivateMessage"
  | privateAction => "PrivateAction"
  | privateCtcp => "PrivateCtcp"
  | privateCtcpReply => "PrivateCtcpReply"
  | privateNotice => "PrivateNotice"
  | serverNotice => "ServerNotice"
  | invite => "Invite"
  | wallops => "Wallops"
  | awayState => "AwayState"
  | userAway => "UserAway"
  | serverPing => "ServerPing"
  | pingSent => "PingSent"
  | pingSuccess => "PingSuccess"
  | pingFailed => "PingFailed"
  | serverError => "ServerError"
  | socketClosed => "SocketClosed"

def ofName? (s : String) : Option EventKind := all.find? (·.name == s)

end EventKind

namespace Event

/-- What a listener must have asked for to hear of the event. -/
def kind : Event → EventKind
  | dataIn _ => .dataIn
  | dataOut _ => .dataOut
  | malformed .. => .malformed
  | numeric .. => .numeric
  | phaseChanged .. => .stateChanged
  | registered _ => .registered
  | serverInfo .. => .serverInfo
  | tableRebuilt => .post005
  | serverReady => .serverReady
  | nickInUse _ => .nickInUse
  | motdStart _ => .motdStart
  | motdLine _ => .motdLine
  | motdEnd _ => .motdEnd
  | selfJoined _ => .channelSelfJoin
  | joinRefused .. => .joinFailed
  | joined .. => .channelJoin
  | parted .. => .channelPart
  | kicked .. => .channelKick
  | channelQuit .. => .channelQuit
  | quit .. => .quit
  | nickChanged .. => .nickChanged
  | topicChanged .. => .topicChanged
  | namesComplete _ => .namesComplete
  | channelModesChanged .. => .channelModeChanged
  | memberModeChanged .. => .channelUserModeChanged
  | listRetrieved .. => .listModesRetrieved
  | userModesChanged .. => .userModeChanged
  | channelMessage _ _ (.text _) => .channelMessage
  | channelMessage _ _ (.notice _) => .channelNotice
  | channelMessage _ _ (.action _) => .channelAction
  | channelMessage _ _ (.request ..) => .channelCtcp
  | channelMessage _ _ (.reply ..) => .channelCtcpReply
  | privateMessage _ (.text _) => .privateMessage
  | privateMessage _ (.notice _) => .privateNotice
  | privateMessage _ (.action _) => .privateAction
  | privateMessage _ (.request ..) => .privateCtcp
  | privateMessage _ (.reply ..) => .privateCtcpReply
  | serverNotice .. => .serverNotice
  | invited .. => .invite
  | wallops .. => .wallops
  | awayChanged _ => .awayState
  | userAway .. => .userAway
  | serverPing _ => .serverPing
  | pingSent _ => .pingSent
  | pingAnswered _ => .pingSuccess
  | pingFailed _ => .pingFailed
  | serverError _ => .serverError
  | closed _ => .socketClosed

/-- The channel that an event is about, or the user for events that concern one user alone;
filters are compared with it. -/
def target? : Event → Option String
  | selfJoined channel | joinRefused channel .. | joined channel _ | parted channel ..
  | kicked channel .. | channelQuit channel .. | topicChanged channel .. | namesComplete channel
  | channelModesChanged channel .. | memberModeChanged channel .. | listRetrieved channel _
  | channelMessage channel .. | invited channel _ => some channel
  | privateMessage sender _ => some sender.nick
  | quit user _ => some user.nick
  | nickChanged old _ => some old
  | userModesChanged nick _ | userAway nick _ | nickInUse nick => some nick
  | _ => none

end Event

end Irc
