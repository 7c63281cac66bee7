import Irc.Toml.Value
/-!
Documents in TOML: lines that give a value to a key, and lines that begin a table. A key names
a path of tables with dots between their names. Nothing is defined twice: no key has two values,
no table has two headers, and a table that has a header gets no keys by way of another table.
-/
namespace Irc.Toml

/-- What has made a table known. -/
inductive Origin
  /-- Its own header. -/
  | header
  /-- The header of a table inside it. -/
  | implied
  /-- A key with dots. -/
  | dotted
deriving Repr, DecidableEq

inductive Node
  | value (v : Value)
  | table (origin : Origin)

/-- A document, as what each path from its root leads to. -/
structure Document where
  nodes : List (List String × Node)

namespace Document

def empty : Document := ⟨[]⟩

def node? (d : Document) (path : List String) : Option Node := d.nodes.lookup path

def put (d : Document) (path : List String) (node : Node) : Document := ⟨(path, node) :: d.nodes⟩

/-- Sees to it that a path below another one leads through tables, none of whose origins is
refused; missing ones are made. -/
def descend? (origin : Origin) (refuses : Origin → Bool) (d : Document) (base : List String) :
    List String → Option Document
  | [] => some d
  | name :: rest =>
    let path := base ++ [name]
    match d.node? path with
    | none => (d.put path (.table origin)).descend? origin refuses path rest
    | some (.table known) => if refuses known then none else d.descend? origin refuses path rest
    | some (.value _) => none

def openTable? (d : Document) (path : List String) : Option Document :=
  (d.descend? .implied (fun _ => false) [] path.dropLast).bind fun d =>
    match d.node? path with
    | none | some (.table .implied) => some (d.put path (.table .header))
    | _ => none

/-- Whether keys may be put into a table by way of another one. -/
def isDotted (d : Document) (path : List String) : Bool :=
  match d.node? path with
  | some (.table .dotted) => true
  | _ => false

/-- Gives a value to a key of the table at `base`. -/
def define? (d : Document) (base key : List String) (v : Value) : Option Document :=
  (d.descend? .dotted (· == .header) base key.dropLast).bind fun d =>
    if key.length ≤ 1 ∨ d.isDotted (base ++ key.dropLast) then
      match d.node? (base ++ key) with
      | none => some (d.put (base ++ key) (.value v))
      | some _ => none
    else none

/-- How many arrays or tables may be nested. -/
def nestingLimit : Nat := 79

def isBareKeyChar (c : Char) : Bool := c.isAlphanum || c == '_' || c == '-'

def name? (s : List Char) : Option (String × List Char) :=
  match lineString? s with
  | some (text, rest) => some (String.ofList text, rest)
  | none =>
    match s.takeWhile isBareKeyChar with
    | [] => none
    | text => some (String.ofList text, s.dropWhile isBareKeyChar)

/-- The names of a key, and what follows it and the spaces after it. As many rounds as there are
characters are enough. -/
def key? : Nat → List Char → Option (List String × List Char)
  | 0, _ => none
  | rounds + 1, s =>
    (name? (s.dropWhile isSpace)).bind fun (name, s) =>
      match s.dropWhile isSpace with
      | '.' :: rest => (key? rounds rest).map fun (names, rest) => (name :: names, rest)
      | rest => some ([name], rest)

/-- A key that is not too long. -/
def path? (s : List Char) : Option (List String × List Char) :=
  (key? s.length s).filter fun p => p.1.length ≤ nestingLimit

/-- What follows a line of which nothing is left but spaces and a comment. -/
def lineEnd? (s : List Char) : Option (List Char) :=
  let rest :=
    match s.dropWhile isSpace with
    | '#' :: comment => comment.dropWhile isPlain
    | rest => rest
  if rest.isEmpty then some [] else lineBreak? rest

/-- One line that is not empty: the document and the path of its current table after it, and
what follows the line. -/
def statement? (d : Document) (current : List String) (s : List Char) :
    Option (Document × List String × List Char) :=
  match s with
  | '[' :: rest => do
    let (path, rest) ← path? rest
    match rest with
    | ']' :: rest =>
      let d ← d.openTable? path
      return (d, path, ← lineEnd? rest)
    | _ => none
  | s => do
    let (key, rest) ← path? s
    match rest with
    | '=' :: rest =>
      let (v, rest) ← value? nestingLimit (rest.dropWhile isSpace)
      let d ← d.define? current key v
      return (d, current, ← lineEnd? rest)
    | _ => none

/-- Reads line after line. Each round takes at least one character, so one round more than there
are characters is enough. -/
def lines? : Nat → Document → List String → List Char → Option Document
  | 0, _, _, _ => none
  | rounds + 1, d, current, s =>
    match s.dropWhile isSpace with
    | [] => some d
    | s =>
      match lineEnd? s with
      | some rest => lines? rounds d current rest
      | none => (statement? d current s).bind fun (d, current, rest) => lines? rounds d current rest

/-- Reads a document. A byte order mark at its beginning is no part of it. -/
def read? (text : String) : Option Document :=
  let s :=
    match text.toList with
    | '\uFEFF' :: rest => rest
    | s => s
  lines? (s.length + 1) empty [] s

end Document

end Irc.Toml
