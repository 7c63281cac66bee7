import Irc.Text.Pieces
/-!
Message tags: `key=value` pairs between semicolons, with `;`, space, `\`, CR and LF of a value
written as `\:`, `\s`, `\\`, `\r` and `\n`.
-/
namespace Irc

/-- A tag of a line; a tag without a value and one with an empty value are the same. -/
structure Tag where
  key : String
  value : Option String
deriving Repr, DecidableEq, Inhabited

namespace Tag

/-- The character that an escape stands for: most stand for themselves. -/
def unescapeChar : Char → Char
  | ':' => ';'
  | 's' => ' '
  | 'r' => '\r'
  | 'n' => '\n'
  | c => c

/-- Reads the escapes of a value. A backslash at the end is dropped. -/
def unescape : List Char → List Char
  | [] => []
  | ['\\'] => []
  | '\\' :: c :: rest => unescapeChar c :: unescape rest
  | c :: rest => c :: unescape rest

def escapeChar : Char → List Char
  | ';' => ['\\', ':']
  | ' ' => ['\\', 's']
  | '\\' => ['\\', '\\']
  | '\r' => ['\\', 'r']
  | '\n' => ['\\', 'n']
  | c => [c]

def escape (s : List Char) : List Char := s.flatMap escapeChar

/-- Reads the text between two semicolons; a tag needs a key. -/
def ofPiece? (s : List Char) : Option Tag :=
  let parts := (Text.cut '=' s).getD (s, [])
  if parts.1.isEmpty then none
  else some ⟨String.ofList parts.1,
    if parts.2.isEmpty then none else some (String.ofList (unescape parts.2))⟩

/-- Reads a tag section, without its `@`. -/
def readAll (raw : List Char) : List Tag := (Text.pieces (· == ';') raw).filterMap ofPiece?

def write (t : Tag) : List Char :=
  t.key.toList ++ match t.value with
    | some v => '=' :: escape v.toList
    | none => []

def writeAll (tags : List Tag) : List Char := [';'].intercalate (tags.map write)

end Tag

end Irc
