/-!
Decimal numerals of bounded size. A numeral is a sign that the number's range allows and one
or more ASCII digits, and nothing else; a number outside the range has no numeral.
-/
namespace Irc.Text

/-- The number that a run of ASCII digits denotes. -/
def digitsValue (s : List Char) : Nat :=
  s.foldl (fun n c => 10 * n + (c.toNat - '0'.toNat)) 0

def digitsValue? (s : List Char) : Option Nat :=
  if s ≠ [] ∧ s.all Char.isDigit then some (digitsValue s) else none

/-- A natural number of at most `bound`, with an optional plus sign. -/
def natural? (bound : Nat) (s : List Char) : Option Nat :=
  let digits := match s with
    | '+' :: rest => rest
    | _ => s
  (digitsValue? digits).filter (· ≤ bound)

/-- An integer of 64 bits with this magnitude; the least one has no counterpart. -/
def signed64? (negative : Bool) (magnitude : Nat) : Option Int :=
  if negative then
    if magnitude ≤ 9223372036854775808 then some (-(magnitude : Int)) else none
  else if magnitude ≤ 9223372036854775807 then some (magnitude : Int)
  else none

/-- An integer of 64 bits, with an optional sign. -/
def integer64? (s : List Char) : Option Int :=
  match s with
  | '-' :: rest => (digitsValue? rest).bind (signed64? true)
  | '+' :: rest => (digitsValue? rest).bind (signed64? false)
  | _ => (digitsValue? s).bind (signed64? false)

end Irc.Text
