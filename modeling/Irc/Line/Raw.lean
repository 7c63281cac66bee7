import Irc.Text.Pieces
/-!
The parts of a line as they were sent:

    [@tags SPACE] [:source SPACE] command *(SPACE middle) [SPACE :trailing]

Several spaces separate like one. A line that has a command always has a reading; nothing is
said here about what the parts mean.
-/
namespace Irc

inductive LineError
  | empty
  | missingCommand
deriving Repr, DecidableEq

namespace LineError

def message : LineError → String
  | empty => "empty line"
  | missingCommand => "missing command"

end LineError

/-- The parts of a line as they were sent. -/
structure RawLine where
  tags : Option (List Char)
  source : Option (List Char)
  command : List Char
  /-- The parameters; the trailing one, if any, is last and without its colon. -/
  params : List (List Char)
deriving Repr, DecidableEq

namespace RawLine

def isSpace (c : Char) : Bool := c == ' '

def isGap (c : Char) : Bool := c == ' ' || c == '\t'

/-- A tag section begins with `@` and needs a space after it. -/
def splitTags (s : List Char) : Option (List Char) × List Char :=
  match s with
  | '@' :: rest =>
    if rest.any isSpace then (some (rest.takeWhile (!isSpace ·)), rest.dropWhile (!isSpace ·))
    else (none, s)
  | _ => (none, s)

/-- A source begins with a colon and has at least one character after it. -/
def splitSource (s : List Char) : Option (List Char) × List Char :=
  match s with
  | ':' :: rest =>
    if (rest.takeWhile (!isSpace ·)).isEmpty then (none, s)
    else (some (rest.takeWhile (!isSpace ·)), rest.dropWhile (!isSpace ·))
  | _ => (none, s)

def consFirst (c : Char) : List (List Char) → List (List Char)
  | [] => [[c]]
  | w :: rest => (c :: w) :: rest

mutual

/-- The parameters in a text that stands after a space: further spaces are skipped, and a
parameter that begins with a colon runs to the end of its line. -/
def paramsAfterSpace : List Char → List (List Char)
  | [] => []
  | ' ' :: rest => paramsAfterSpace rest
  | ':' :: text => [text.takeWhile (!Text.isLineBreak ·)]
  | c :: rest => if Text.isLineBreak c then [] else consFirst c (paramsInWord rest)

/-- The parameters in a text that goes on with a parameter already begun. -/
def paramsInWord : List Char → List (List Char)
  | [] => [[]]
  | ' ' :: rest => [] :: paramsAfterSpace rest
  | c :: rest => if Text.isLineBreak c then [[]] else consFirst c (paramsInWord rest)

end

def paramsOf : List Char → List (List Char)
  | ' ' :: rest => paramsAfterSpace rest
  | _ => []

def split (s : List Char) : Except LineError RawLine :=
  let (tags, s) := splitTags s
  let (source, s) := splitSource (s.dropWhile isGap)
  let s := s.dropWhile isGap
  let command := s.takeWhile Char.isAlphanum
  if command.isEmpty then .error .missingCommand
  else .ok ⟨tags, source, command, paramsOf (s.dropWhile Char.isAlphanum)⟩

/-- Reads a line, without the line breaks at its end. -/
def read (input : List Char) : Except LineError RawLine :=
  let s := Text.trimEnd Text.isLineBreak input
  if s.all Text.isBlank then .error .empty else split s

/-- Writes a line: the last parameter after a colon, all others plain. -/
def write (l : RawLine) : List Char :=
  (match l.tags with | some t => '@' :: t ++ [' '] | none => []) ++
  (match l.source with | some s => ':' :: s ++ [' '] | none => []) ++
  l.command ++
  (l.params.dropLast.flatMap (' ' :: ·)) ++
  (match l.params.getLast? with | some p => ' ' :: ':' :: p | none => [])

end RawLine

end Irc
