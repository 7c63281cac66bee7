import Irc.Text.Pieces
/-!
Sources of lines: `nick!ident@host`, with any part missing.

Splitting never fails, since servers send bare nicks, `nick@host` and their own names; a
missing part comes back empty. Joining leaves empty parts out.
-/
namespace Irc

/-- The parts of a line's source; `nick` holds the server's name where a server speaks. -/
structure Hostmask where
  nick : String
  ident : String
  host : String
deriving Repr, DecidableEq, Inhabited

namespace Hostmask

def empty : Hostmask := ⟨"", "", ""⟩

/-- The parts of a source, as text. Leading colons are left out. The nick ends at the first
`!` or `@`; after a `!` the ident runs up to the next `@`; the host is all that follows the
`@`. -/
def splitParts (raw : List Char) : List Char × List Char × List Char :=
  let s := raw.dropWhile (· == ':')
  let nick := s.takeWhile fun c => c != '!' && c != '@'
  match s.dropWhile fun c => c != '!' && c != '@' with
  | [] => (nick, [], [])
  | '@' :: host => (nick, [], host)
  | _ :: rest =>
    match Text.cut '@' rest with
    | some (ident, host) => (nick, ident, host)
    | none => (nick, rest, [])

def ofString (raw : String) : Hostmask :=
  let parts := splitParts raw.toList
  ⟨String.ofList parts.1, String.ofList parts.2.1, String.ofList parts.2.2⟩

def nickOf (raw : String) : String := String.ofList (splitParts raw.toList).1

/-- Writes a source, leaving out the parts that are empty. -/
def join (nick ident host : String) : String :=
  nick ++ (if ident = "" then "" else "!" ++ ident) ++ (if host = "" then "" else "@" ++ host)

def toString (m : Hostmask) : String := join m.nick m.ident m.host

/-- Whether a server speaks rather than a user. -/
def isServer (m : Hostmask) : Bool :=
  m.ident == "" && m.host == "" && m.nick.toList.contains '.'

end Hostmask

end Irc
