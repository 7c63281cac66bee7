import Irc.Hostmask
import Irc.Mode.Mask
import Irc.SortedMap
/-!
What is known about one user.
-/
namespace Irc

/-- The identity of a user for as long as the connection lasts; a new nickname keeps it. -/
abbrev ClientId := Nat

structure Client where
  id : ClientId
  nick : String
  /-- Empty until seen. -/
  ident : String
  /-- Empty until seen. -/
  host : String
  realname : Option String := none
  account : Option String := none
  userModes : ModeMask := ModeMask.none
  away : Bool := false
  awayReason : Option String := none
  properties : SortedMap String String := SortedMap.empty
  /-- Whether the record is kept though no channel is shared. -/
  keptAlive : Bool := false
  /-- The folded names of the channels that the user is in. -/
  channels : SortedSet String := SortedMap.empty
deriving DecidableEq

namespace Client

/-- The user's source as it would be written, with the parts known so far. -/
def hostmask (c : Client) : String := Hostmask.join c.nick c.ident c.host

/-- Takes over the parts of a source that are given. -/
def learn (c : Client) (ident host : String) : Client :=
  { c with
    ident := if ident = "" then c.ident else ident
    host := if host = "" then c.host else host }

end Client

end Irc
