import Irc.Text.Numeral
import Irc.Toml.Quoted
/-!
Whole numbers in TOML: decimal with an optional sign, or hexadecimal, octal or binary behind
`0x`, `0o` or `0b`. Single underscores may stand between digits, no decimal number of two or
more digits begins with a zero, and every number has to fit 64 bits.
-/
namespace Irc.Toml

structure Radix where
  base : Nat
  isDigit : Char → Bool

namespace Radix

def decimal : Radix := ⟨10, Char.isDigit⟩

def hexadecimal : Radix := ⟨16, fun c => (hexValue? c).isSome⟩

def octal : Radix := ⟨8, fun c => '0' ≤ c && c ≤ '7'⟩

def binary : Radix := ⟨2, fun c => c == '0' || c == '1'⟩

/-- The digits that a text begins with, and what follows them. An underscore between two digits
is left out. -/
def digits (r : Radix) : List Char → List Char × List Char
  | [] => ([], [])
  | '_' :: d :: rest => if r.isDigit d then r.digits (d :: rest) else ([], '_' :: d :: rest)
  | c :: rest =>
    if r.isDigit c then
      let (ds, after) := r.digits rest
      (c :: ds, after)
    else ([], c :: rest)

def value (r : Radix) (ds : List Char) : Nat :=
  ds.foldl (fun n c => r.base * n + (hexValue? c).getD 0) 0

/-- A number without a sign, and what follows it. It begins with a digit. -/
def number? (r : Radix) (s : List Char) : Option (Nat × List Char) :=
  if s.head?.any r.isDigit then
    let (ds, rest) := r.digits s
    some (r.value ds, rest)
  else none

end Radix

/-- A decimal number without a sign; after a leading zero it has ended. -/
def decimal? : List Char → Option (Nat × List Char)
  | '0' :: rest => some (0, rest)
  | s => Radix.decimal.number? s

/-- A number that fits 64 bits with its sign, and what follows it. -/
def signed? (negative : Bool) (p : Nat × List Char) : Option (Int × List Char) :=
  (Text.signed64? negative p.1).map fun n => (n, p.2)

/-- A whole number, and what follows it. -/
def integer? : List Char → Option (Int × List Char)
  | '0' :: 'x' :: rest => (Radix.hexadecimal.number? rest).bind (signed? false)
  | '0' :: 'o' :: rest => (Radix.octal.number? rest).bind (signed? false)
  | '0' :: 'b' :: rest => (Radix.binary.number? rest).bind (signed? false)
  | '+' :: rest => (decimal? rest).bind (signed? false)
  | '-' :: rest => (decimal? rest).bind (signed? true)
  | s => (decimal? s).bind (signed? false)

end Irc.Toml
