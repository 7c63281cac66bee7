import Irc.CaseMapping
import Irc.SortedMap
import Irc.Text.Numeral
import Irc.Text.Pieces
/-!
What a server says it supports: the tokens of its 005 lines, and the values that the rest of
the library reads off them. Tokens come spread over several lines and are gathered one line
after the other; a later token replaces an earlier one with its key, and `-KEY` takes it back.
-/
namespace Irc

/-- The value of a `PREFIX` token: the letters of the member status modes and the glyphs that
stand for them, most important first. -/
structure StatusModes where
  letters : String
  glyphs : String
deriving Repr, DecidableEq

namespace StatusModes

/-- Operators and voiced members, where the server says nothing. -/
def default : StatusModes := ⟨"ov", "@+"⟩

def empty : StatusModes := ⟨"", ""⟩

/-- Reads `(letters)glyphs`, with as many glyphs as letters. -/
def read? (s : String) : Option StatusModes := do
  let (_, afterOpen) ← Text.cut '(' s.toList
  let (letters, glyphs) ← Text.cut ')' afterOpen
  if letters.length = glyphs.length then
    some ⟨String.ofList letters, String.ofList glyphs⟩
  else none

def pairs (m : StatusModes) : List (Char × Char) := m.letters.toList.zip m.glyphs.toList

end StatusModes

/-- The value of a `CHANMODES` token: the letters of the list modes, of those that always take
a parameter, of those that take one when set, and of those that never do. -/
structure ModeGroups where
  lists : String
  always : String
  whenSet : String
  never : String
deriving Repr, DecidableEq

namespace ModeGroups

/-- Reads `A,B,C,D`; further groups are ignored. -/
def read? (s : String) : Option ModeGroups :=
  match (Text.pieces (· == ',') s.toList).map String.ofList with
  | a :: b :: c :: d :: _ => some ⟨a, b, c, d⟩
  | _ => none

end ModeGroups

/-- The tokens announced so far: their keys in upper case, and the values of those that have
one. -/
structure Support where
  tokens : SortedMap String (Option String)
deriving DecidableEq

namespace Support

def empty : Support := ⟨SortedMap.empty⟩

instance : Inhabited Support := ⟨empty⟩

def absorbToken (s : Support) (token : String) : Support :=
  match token.toList with
  | [] => s
  | '-' :: key => ⟨s.tokens.erase (Text.upper (String.ofList key))⟩
  | chars =>
    match Text.cut '=' chars with
    | some (key, value) =>
      ⟨s.tokens.insert (Text.upper (String.ofList key)) (some (String.ofList value))⟩
    | none => ⟨s.tokens.insert (Text.upper token) none⟩

/-- The tokens among the parameters of a 005 line. The first parameter is our nickname, and a
last one with a space in it is text for people. -/
def tokensOf (params : List String) : List String :=
  let tokens := params.drop 1
  match tokens.getLast? with
  | some last => if last.toList.contains ' ' then tokens.dropLast else tokens
  | none => []

/-- Takes in the parameters of one 005 line. -/
def absorb (s : Support) (params : List String) : Support :=
  (tokensOf params).foldl absorbToken s

/-- Looks a key up in any ASCII case: the inner option is the token's value. -/
def get? (s : Support) (key : String) : Option (Option String) := s.tokens.get? (Text.upper key)

def value? (s : Support) (key : String) : Option String := (s.get? key).join

def isEmpty (s : Support) : Bool := s.tokens.isEmpty

/-- The announced case mapping, if it is one we know. -/
def caseMapping? (s : Support) : Option CaseMapping :=
  (s.value? "CASEMAPPING").bind CaseMapping.ofName?

def channelTypes (s : Support) : String := (s.value? "CHANTYPES").getD "#&"

def network? (s : Support) : Option String := s.value? "NETWORK"

/-- The member status modes. A token without a value means that there are none; one that
cannot be read counts as not announced. -/
def statusModes (s : Support) : StatusModes :=
  match s.get? "PREFIX" with
  | none => .default
  | some none => .empty
  | some (some v) => if v = "" then .empty else (StatusModes.read? v).getD .default

def modeGroups? (s : Support) : Option ModeGroups := (s.value? "CHANMODES").bind ModeGroups.read?

/-- The limit of a mode count: the largest number of 64 bits. -/
def unlimited : Nat := 18446744073709551615

def modesPerLine? (s : Support) : Option Nat :=
  match s.get? "MODES" with
  | none => none
  | some none => some unlimited
  | some (some v) => Text.natural? unlimited v.toList

/-- The glyphs that may stand before a channel's name in a message's target. -/
def statusTargets (s : Support) : String := (s.value? "STATUSMSG").getD ""

def letter? (s : Support) (key : String) (standard : Char) : Option Char :=
  (s.get? key).map fun v => (v.bind fun t => t.toList.head?).getD standard

def exceptsLetter? (s : Support) : Option Char := s.letter? "EXCEPTS" 'e'

def invexLetter? (s : Support) : Option Char := s.letter? "INVEX" 'I'

/-- The numeric of a list entry whose letter is a parameter; the next one ends the list. -/
def listNumeric? (s : Support) : Option Nat :=
  (s.value? "LISTMODE").bind fun v => Text.natural? 65535 v.toList

end Support

end Irc
