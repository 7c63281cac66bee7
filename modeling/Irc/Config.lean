import Irc.Text.Class
/-!
The settings of one connection, and which of them the protocol can carry. What a server
supports is learned from the server and is no setting.
-/
namespace Irc

/-- The settings of one connection. -/
structure Config where
  nickname : String := "slirc"
  altNickname : Option String := none
  username : String := "slirc"
  realname : String := "slirc-client"
  password : Option String := none
  /-- Seconds of silence before we send a PING. -/
  pingInterval : Nat := 120
  /-- Seconds that the server has to answer it. -/
  pingTimeout : Nat := 60
  requestListModesOnJoin : Bool := false
  /-- The list modes to ask for; all that the server has, if none are given. -/
  listModeLetters : Option String := none
deriving Repr, DecidableEq

inductive ConfigError
  | emptyNickname
  | invalidNickname (nick : String)
  | emptyUsername
  | zeroPingTimeout
  | unreadable
deriving Repr, DecidableEq

namespace ConfigError

def message : ConfigError → String
  | emptyNickname => "nickname must not be empty"
  | invalidNickname nick => "invalid nickname: " ++ nick
  | emptyUsername => "username must not be empty"
  | zeroPingTimeout => "ping timeout must be greater than zero"
  | unreadable => "config parse error"

end ConfigError

namespace Config

def isNickChar (c : Char) : Bool :=
  !(Text.isBlank c || Text.isControl c || c == ',' || c == '!' || c == '@' || c == '*' || c == '?')

/-- Characters that may not begin a nickname, though they may stand in one. -/
def isBadNickStart (c : Char) : Bool :=
  c.isDigit || c == '-' || c == ':' || c == '#' || c == '&'

def isSendableNick (nick : String) : Bool :=
  match nick.toList with
  | [] => false
  | c :: rest => !isBadNickStart c && (c :: rest).all isNickChar

/-- The first reason to refuse the settings. -/
def defect? (c : Config) : Option ConfigError :=
  if c.nickname = "" then some .emptyNickname
  else
    match (c.nickname :: c.altNickname.toList).find? (!isSendableNick ·) with
    | some nick => some (.invalidNickname nick)
    | none =>
      if c.username = "" then some .emptyUsername
      else if c.pingTimeout = 0 then some .zeroPingTimeout
      else none

/-- The settings themselves, if nothing is wrong with them. -/
def validate (c : Config) : Except ConfigError Config :=
  match c.defect? with
  | some e => .error e
  | none => .ok c

end Config

end Irc
