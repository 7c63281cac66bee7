import Irc.Config
import Irc.Toml.Document
/-!
Settings in a TOML document, each under the key of its name at the root. A setting that is not
given has its default, and keys that name no setting are passed over.
-/
namespace Irc.Config

open Toml

/-- What a setting's value is, if the document gives it as `read?` takes it. -/
def setting? {α : Type} (read? : Value → Option α) (d : Document) (key : String) (default : α) :
    Option α :=
  match d.node? [key] with
  | none => some default
  | some (.value v) => read? v
  | some (.table _) => none

def text? : Value → Option String
  | .text s => some s
  | _ => none

def truth? : Value → Option Bool
  | .boolean b => some b
  | _ => none

def seconds? : Value → Option Nat
  | .integer n => if 0 ≤ n then some n.toNat else none
  | _ => none

def ofDocument? (d : Document) : Option Config := do
  let base : Config := {}
  let nickname ← setting? text? d "nickname" base.nickname
  let altNickname ← setting? (fun v => (text? v).map some) d "alt_nickname" none
  let username ← setting? text? d "username" base.username
  let realname ← setting? text? d "realname" base.realname
  let password ← setting? (fun v => (text? v).map some) d "password" none
  let pingInterval ← setting? seconds? d "ping_interval" base.pingInterval
  let pingTimeout ← setting? seconds? d "ping_timeout" base.pingTimeout
  let requestListModesOnJoin ← setting? truth? d "request_list_modes_on_join" false
  let listModeLetters ← setting? (fun v => (text? v).map some) d "list_mode_chars" none
  return {
    nickname, altNickname, username, realname, password, pingInterval, pingTimeout,
    requestListModesOnJoin, listModeLetters }

def load (text : String) : Except ConfigError Config :=
  match (Document.read? text).bind ofDocument? with
  | some c => c.validate
  | none => .error .unreadable

end Irc.Config
