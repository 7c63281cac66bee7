import Irc.Toml.Integer
/-!
Values in TOML: strings, whole numbers, truth values and arrays of these. Other numbers, dates
and inline tables are not read.
-/
namespace Irc.Toml

inductive Value
  | text (s : String)
  | integer (n : Int)
  | boolean (b : Bool)
  | array (items : List Value)

/-- Leaves out spaces, line breaks and comments. A comment ends with its line. -/
def skipTrivia : Bool → List Char → List Char
  | _, [] => []
  | true, '\n' :: rest => skipTrivia false rest
  | true, '\r' :: '\n' :: rest => skipTrivia false rest
  | true, c :: rest => if isPlain c then skipTrivia true rest else c :: rest
  | false, '\r' :: '\n' :: rest => skipTrivia false rest
  | false, c :: rest =>
    if isSpace c || c == '\n' then skipTrivia false rest
    else if c == '#' then skipTrivia true rest
    else c :: rest

/-- The items of an array from behind its bracket, and what follows it; `item` reads one. The
last one may be followed by a comma. Each round takes at least one character, so as many rounds
as there are characters are enough. -/
def items? {α : Type} (item : List Char → Option (α × List Char)) :
    Nat → List Char → Option (List α × List Char)
  | 0, _ => none
  | rounds + 1, s =>
    match skipTrivia false s with
    | ']' :: rest => some ([], rest)
    | s =>
      (item s).bind fun (a, s) =>
        match skipTrivia false s with
        | ',' :: rest => (items? item rounds rest).map fun (l, rest) => (a :: l, rest)
        | ']' :: rest => some ([a], rest)
        | _ => none

/-- A value that is no array, and what follows it. -/
def scalar? : List Char → Option (Value × List Char)
  | 't' :: 'r' :: 'u' :: 'e' :: rest => some (.boolean true, rest)
  | 'f' :: 'a' :: 'l' :: 's' :: 'e' :: rest => some (.boolean false, rest)
  | s =>
    match string? s with
    | some (text, rest) => some (.text (String.ofList text), rest)
    | none => (integer? s).map fun (n, rest) => (.integer n, rest)

/-- A value, and what follows it; `depth` is how deep arrays may be nested. -/
def value? : Nat → List Char → Option (Value × List Char)
  | 0, s => scalar? s
  | depth + 1, s =>
    match s with
    | '[' :: rest => (items? (value? depth) s.length rest).map fun (l, rest) => (.array l, rest)
    | s => scalar? s

end Irc.Toml
