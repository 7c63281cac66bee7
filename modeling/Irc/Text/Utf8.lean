/-!
UTF-8 over lists of bytes. Every byte string has a reading: each longest run of bytes that
begins a character's encoding without completing one reads as a single U+FFFD, and so does
each byte that cannot begin an encoding.
-/
namespace Irc.Text.Utf8

def replacement : Char := '\uFFFD'

/-- A character in progress: the bytes it still needs, the bits read so far, and the range
that its next byte must lie in. -/
structure Pending where
  needed : Nat
  bits : Nat
  low : UInt8
  high : UInt8
deriving Repr, DecidableEq

/-- What a byte at the start of a character means: a character of its own, the beginning of a
longer one, or nothing. -/
def start (b : UInt8) : List Char × Option Pending :=
  let n := b.toNat
  if n < 0x80 then ([Char.ofNat n], none)
  else if n < 0xC2 then ([replacement], none)
  else if n < 0xE0 then ([], some ⟨1, n - 0xC0, 0x80, 0xBF⟩)
  else if n < 0xF0 then
    ([], some ⟨2, n - 0xE0, if n = 0xE0 then 0xA0 else 0x80, if n = 0xED then 0x9F else 0xBF⟩)
  else if n < 0xF5 then
    ([], some ⟨3, n - 0xF0, if n = 0xF0 then 0x90 else 0x80, if n = 0xF4 then 0x8F else 0xBF⟩)
  else ([replacement], none)

/-- One byte: the characters that it settles, and what is in progress after it. -/
def step : Option Pending → UInt8 → List Char × Option Pending
  | none, b => start b
  | some p, b =>
    if p.low ≤ b ∧ b ≤ p.high then
      let bits := p.bits * 64 + (b.toNat - 0x80)
      if p.needed ≤ 1 then ([Char.ofNat bits], none)
      else ([], some ⟨p.needed - 1, bits, 0x80, 0xBF⟩)
    else
      let next := start b
      (replacement :: next.1, next.2)

def decodeFrom (p : Option Pending) : List UInt8 → List Char
  | [] => if p.isSome then [replacement] else []
  | b :: rest => (step p b).1 ++ decodeFrom (step p b).2 rest

def decode (bytes : List UInt8) : List Char := decodeFrom none bytes

def encode (s : List Char) : List UInt8 := s.flatMap String.utf8EncodeChar

end Irc.Text.Utf8
