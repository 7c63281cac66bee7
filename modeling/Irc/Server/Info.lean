import Irc.Text.Pieces
/-!
What a server says of itself in its 004 line, and the family of server software that its
version string names.
-/
namespace Irc

/-- The contents of a 004 line. -/
structure ServerInfo where
  serverName : String
  version : String
  userModes : String
  channelModes : String
deriving Repr, DecidableEq

namespace ServerInfo

def empty : ServerInfo := ⟨"", "", "", ""⟩

instance : Inhabited ServerInfo := ⟨empty⟩

/-- Reads the parameters of a 004 line; the first one is our nickname, and missing ones are
empty. -/
def ofParams (params : List String) : ServerInfo :=
  let get i := params[i]?.getD ""
  ⟨get 1, get 2, get 3, get 4⟩

end ServerInfo

/-- Families of server software whose habits differ. -/
inductive ServerFamily
  | hyperion
  | dancer
  | unreal
  | inspircd
  /-- Charybdis and what grew out of it. -/
  | charybdis
  | ircu
  | ircnet
  /-- Hybrid and Ratbox. -/
  | hybrid
  | unknown
deriving Repr, DecidableEq

namespace ServerFamily

instance : Inhabited ServerFamily := ⟨unknown⟩

def name : ServerFamily → String
  | hyperion => "Hyperion"
  | dancer => "Dancer"
  | unreal => "Unreal"
  | inspircd => "Inspircd"
  | charybdis => "Charybdis"
  | ircu => "Ircu"
  | ircnet => "Ircnet"
  | hybrid => "Hybrid"
  | unknown => "Unknown"

/-- The family that a version string names, in any ASCII case. -/
def ofVersion (version : String) : ServerFamily :=
  let v := version.toList.map Char.toLower
  let mentions (s : String) := Text.occursIn s.toList v
  let begins (s : String) := s.toList.isPrefixOf v
  if mentions "hyperion" then hyperion
  else if mentions "dancer" then dancer
  else if mentions "unreal" then unreal
  else if mentions "inspircd" then inspircd
  else if mentions "charybdis" || mentions "ircd-seven" || mentions "solanum" then charybdis
  else if begins "u2." || mentions "ircu" then ircu
  else if begins "2.11" || mentions "ircnet" then ircnet
  else if mentions "hybrid" || mentions "ratbox" then hybrid
  else unknown

/-- Whether the family sends several lists through the ban numerics. -/
def overloadsBanList : ServerFamily → Bool
  | hyperion | dancer => true
  | _ => false

end ServerFamily

end Irc
