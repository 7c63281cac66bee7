import Irc.Text.Numeral
/-!
The numeric replies that the library knows by name. Every other numeric is still a line with a
code; it only has no name here.
-/
namespace Irc

inductive Numeric
  | welcome | yourHost | created | myInfo | isupport
  | umodeIs | away | unaway | nowAway | whoisUser | endOfWho | endOfWhois | channelModeIs
  | creationTime | noTopic | topic | topicWhoTime | inviting | reopList | endOfReopList
  | inviteList | endOfInviteList | exceptList | endOfExceptList | whoReply | namReply
  | endOfNames | banList | endOfBanList | motd | motdStart | endOfMotd | youreOper
  | noSuchNick | noSuchChannel | cannotSendToChan | tooManyChannels | unknownCommand | noMotd
  | noNicknameGiven | erroneousNickname | nicknameInUse | nickCollision | unavailResource
  | notOnChannel | notRegistered | needMoreParams | passwdMismatch | youreBannedCreep
  | channelIsFull | unknownMode | inviteOnlyChan | bannedFromChan | badChannelKey
  | needReggedNick | chanOPrivsNeeded
  | quietList | endOfQuietList | loggedIn | loggedOut
deriving Repr, DecidableEq

namespace Numeric

/-- The code of a numeric and its conventional name. -/
def entry : Numeric → Nat × String
  | welcome => (1, "RPL_WELCOME")
  | yourHost => (2, "RPL_YOURHOST")
  | created => (3, "RPL_CREATED")
  | myInfo => (4, "RPL_MYINFO")
  | isupport => (5, "RPL_ISUPPORT")
  | umodeIs => (221, "RPL_UMODEIS")
  | away => (301, "RPL_AWAY")
  | unaway => (305, "RPL_UNAWAY")
  | nowAway => (306, "RPL_NOWAWAY")
  | whoisUser => (311, "RPL_WHOISUSER")
  | endOfWho => (315, "RPL_ENDOFWHO")
  | endOfWhois => (318, "RPL_ENDOFWHOIS")
  | channelModeIs => (324, "RPL_CHANNELMODEIS")
  | creationTime => (329, "RPL_CREATIONTIME")
  | noTopic => (331, "RPL_NOTOPIC")
  | topic => (332, "RPL_TOPIC")
  | topicWhoTime => (333, "RPL_TOPICWHOTIME")
  | inviting => (341, "RPL_INVITING")
  | reopList => (344, "RPL_REOPLIST")
  | endOfReopList => (345, "RPL_ENDOFREOPLIST")
  | inviteList => (346, "RPL_INVITELIST")
  | endOfInviteList => (347, "RPL_ENDOFINVITELIST")
  | exceptList => (348, "RPL_EXCEPTLIST")
  | endOfExceptList => (349, "RPL_ENDOFEXCEPTLIST")
  | whoReply => (352, "RPL_WHOREPLY")
  | namReply => (353, "RPL_NAMREPLY")
  | endOfNames => (366, "RPL_ENDOFNAMES")
  | banList => (367, "RPL_BANLIST")
  | endOfBanList => (368, "RPL_ENDOFBANLIST")
  | motd => (372, "RPL_MOTD")
  | motdStart => (375, "RPL_MOTDSTART")
  | endOfMotd => (376, "RPL_ENDOFMOTD")
  | youreOper => (381, "RPL_YOUREOPER")
  | noSuchNick => (401, "ERR_NOSUCHNICK")
  | noSuchChannel => (403, "ERR_NOSUCHCHANNEL")
  | cannotSendToChan => (404, "ERR_CANNOTSENDTOCHAN")
  | tooManyChannels => (405, "ERR_TOOMANYCHANNELS")
  | unknownCommand => (421, "ERR_UNKNOWNCOMMAND")
  | noMotd => (422, "ERR_NOMOTD")
  | noNicknameGiven => (431, "ERR_NONICKNAMEGIVEN")
  | erroneousNickname => (432, "ERR_ERRONEOUSNICKNAME")
  | nicknameInUse => (433, "ERR_NICKNAMEINUSE")
  | nickCollision => (436, "ERR_NICKCOLLISION")
  | unavailResource => (437, "ERR_UNAVAILRESOURCE")
  | notOnChannel => (442, "ERR_NOTONCHANNEL")
  | notRegistered => (451, "ERR_NOTREGISTERED")
  | needMoreParams => (461, "ERR_NEEDMOREPARAMS")
  | passwdMismatch => (464, "ERR_PASSWDMISMATCH")
  | youreBannedCreep => (465, "ERR_YOUREBANNEDCREEP")
  | channelIsFull => (471, "ERR_CHANNELISFULL")
  | unknownMode => (472, "ERR_UNKNOWNMODE")
  | inviteOnlyChan => (473, "ERR_INVITEONLYCHAN")
  | bannedFromChan => (474, "ERR_BANNEDFROMCHAN")
  | badChannelKey => (475, "ERR_BADCHANNELKEY")
  | needReggedNick => (477, "ERR_NEEDREGGEDNICK")
  | chanOPrivsNeeded => (482, "ERR_CHANOPRIVSNEEDED")
  | quietList => (728, "RPL_QUIETLIST")
  | endOfQuietList => (729, "RPL_ENDOFQUIETLIST")
  | loggedIn => (900, "RPL_LOGGEDIN")
  | loggedOut => (901, "RPL_LOGGEDOUT")

def code (n : Numeric) : Nat := n.entry.1

def name (n : Numeric) : String := n.entry.2

def ofCode? : Nat → Option Numeric
  | 1 => some welcome
  | 2 => some yourHost
  | 3 => some created
  | 4 => some myInfo
  | 5 => some isupport
  | 221 => some umodeIs
  | 301 => some away
  | 305 => some unaway
  | 306 => some nowAway
  | 311 => some whoisUser
  | 315 => some endOfWho
  | 318 => some endOfWhois
  | 324 => some channelModeIs
  | 329 => some creationTime
  | 331 => some noTopic
  | 332 => some topic
  | 333 => some topicWhoTime
  | 341 => some inviting
  | 344 => some reopList
  | 345 => some endOfReopList
  | 346 => some inviteList
  | 347 => some endOfInviteList
  | 348 => some exceptList
  | 349 => some endOfExceptList
  | 352 => some whoReply
  | 353 => some namReply
  | 366 => some endOfNames
  | 367 => some banList
  | 368 => some endOfBanList
  | 372 => some motd
  | 375 => some motdStart
  | 376 => some endOfMotd
  | 381 => some youreOper
  | 401 => some noSuchNick
  | 403 => some noSuchChannel
  | 404 => some cannotSendToChan
  | 405 => some tooManyChannels
  | 421 => some unknownCommand
  | 422 => some noMotd
  | 431 => some noNicknameGiven
  | 432 => some erroneousNickname
  | 433 => some nicknameInUse
  | 436 => some nickCollision
  | 437 => some unavailResource
  | 442 => some notOnChannel
  | 451 => some notRegistered
  | 461 => some needMoreParams
  | 464 => some passwdMismatch
  | 465 => some youreBannedCreep
  | 471 => some channelIsFull
  | 472 => some unknownMode
  | 473 => some inviteOnlyChan
  | 474 => some bannedFromChan
  | 475 => some badChannelKey
  | 477 => some needReggedNick
  | 482 => some chanOPrivsNeeded
  | 728 => some quietList
  | 729 => some endOfQuietList
  | 900 => some loggedIn
  | 901 => some loggedOut
  | _ => none

def toString (n : Numeric) : String :=
  let digits := Nat.toDigits 10 n.code
  String.ofList (List.replicate (3 - digits.length) '0' ++ digits)

/-- Codes from 400 to 599 report errors. -/
def isError (n : Numeric) : Bool := 400 ≤ n.code && n.code < 600

/-- Codes below 100 belong to registration. -/
def isRegistration (n : Numeric) : Bool := n.code < 100

def isJoinFailure : Numeric → Bool
  | noSuchChannel | tooManyChannels | channelIsFull | inviteOnlyChan | bannedFromChan
  | badChannelKey | needReggedNick => true
  | _ => false

inductive ReadError
  | invalidFormat
  | unknownCode (code : Nat)
deriving Repr, DecidableEq

namespace ReadError

def message : ReadError → String
  | invalidFormat => "invalid response code format"
  | unknownCode code => "unknown response code: " ++ Nat.repr code

end ReadError

/-- Reads a code of at most 16 bits. -/
def read (s : String) : Except ReadError Numeric :=
  match Text.natural? 65535 s.toList with
  | none => .error .invalidFormat
  | some code =>
    match ofCode? code with
    | some n => .ok n
    | none => .error (.unknownCode code)

theorem ofCode?_code (n : Numeric) : ofCode? n.code = some n := by
  cases n <;> rfl

end Numeric

end Irc
