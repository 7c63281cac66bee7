import Irc.Text.Numeral
/-!
Time stamps of the form `2023-05-01T12:30:00.000Z`, the form of the `time` tag.

Dates are proleptic Gregorian with years 0000 to 9999, and a time of day carries its offset
from universal time. A sixtieth second is read as the fifty-ninth with a second or more of
nanoseconds.
-/
namespace Irc.Text

/-- An instant: whole seconds since 1970-01-01T00:00:00Z, rounded down, and the nanoseconds
after them. -/
structure Timestamp where
  seconds : Int
  nanos : Nat
deriving Repr, DecidableEq

namespace Timestamp

def isLeapYear (year : Nat) : Bool :=
  year % 4 == 0 && (year % 100 != 0 || year % 400 == 0)

def daysInMonth (year month : Nat) : Nat :=
  match month with
  | 2 => if isLeapYear year then 29 else 28
  | 4 | 6 | 9 | 11 => 30
  | _ => 31

/-- The days from 0000-01-01 to the first day of a year. -/
def daysBeforeYear (year : Nat) : Nat :=
  365 * year + (year + 3) / 4 + (year + 399) / 400 - (year + 99) / 100

def daysBeforeMonth (year : Nat) : Nat → Nat
  | 0 => 0
  | month + 1 => if month = 0 then 0 else daysBeforeMonth year month + daysInMonth year month

/-- The days from 1970-01-01 to a date. -/
def dayNumber (year month day : Nat) : Int :=
  (daysBeforeYear year + daysBeforeMonth year month + (day - 1) : Nat) - (daysBeforeYear 1970 : Nat)

/-- Exactly `n` digits, and the rest. -/
def digits? (n : Nat) (s : List Char) : Option (Nat × List Char) :=
  let run := s.take n
  if run.length = n ∧ run.all Char.isDigit then
    some (digitsValue run, s.drop n)
  else none

def one? (p : Char → Bool) : List Char → Option (List Char)
  | [] => none
  | c :: rest => if p c then some rest else none

/-- Nanoseconds of an optional fraction; digits past the ninth are dropped. -/
def fraction? (s : List Char) : Option (Nat × List Char) :=
  match s with
  | '.' :: rest =>
    let run := rest.takeWhile Char.isDigit
    if run.isEmpty then none
    else
      let nine := (run ++ List.replicate 9 '0').take 9
      some (digitsValue nine, rest.dropWhile Char.isDigit)
  | _ => some (0, s)

/-- The offset from universal time in seconds, which ends the text. -/
def offset? (s : List Char) : Option Int :=
  match s with
  | ['Z'] | ['z'] => some 0
  | sign :: rest => do
    let (hour, rest) ← digits? 2 rest
    let rest ← one? (· == ':') rest
    let (minute, rest) ← digits? 2 rest
    if rest.isEmpty && hour < 24 && minute < 60 then
      let magnitude : Int := 3600 * hour + 60 * minute
      if sign == '+' then some magnitude
      else if sign == '-' || sign == '\u2212' then some (-magnitude)
      else none
    else none
  | [] => none

/-- Reads a whole text as a time stamp. -/
def read? (s : List Char) : Option Timestamp := do
  let (year, s) ← digits? 4 s
  let s ← one? (· == '-') s
  let (month, s) ← digits? 2 s
  let s ← one? (· == '-') s
  let (day, s) ← digits? 2 s
  let s ← one? (fun c => c == 'T' || c == 't' || c == ' ') s
  let (hour, s) ← digits? 2 s
  let s ← one? (· == ':') s
  let (minute, s) ← digits? 2 s
  let s ← one? (· == ':') s
  let (second, s) ← digits? 2 s
  let (nanos, s) ← fraction? s
  let offset ← offset? s
  if 1 ≤ month ∧ month ≤ 12 ∧ 1 ≤ day ∧ day ≤ daysInMonth year month ∧ hour < 24 ∧
      minute < 60 ∧ second ≤ 60 then
    let inDay : Int := 3600 * hour + 60 * minute + min second 59
    some ⟨86400 * dayNumber year month day + inDay - offset,
      if second = 60 then 1000000000 + nanos else nanos⟩
  else none

end Timestamp

end Irc.Text
