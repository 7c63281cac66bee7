import Irc.Text.Class
import Irc.Text.Pieces
import Irc.Text.Utf8
/-!
Lines on a byte stream. Incoming lines end at LF, and one CR before it is left out; outgoing
lines end with CR LF and stop at the first line break in them, since anything after it would
be read as another command. Bytes that are not UTF-8 read as U+FFFD.
-/
namespace Irc

structure FrameError where
  length : Nat
  limit : Nat
deriving Repr, DecidableEq

namespace FrameError

def message (e : FrameError) : String :=
  "io error: line of " ++ Nat.repr e.length ++ " bytes exceeds limit of " ++ Nat.repr e.limit

end FrameError

/-- Bytes that have arrived and not been handed out as lines. -/
structure Framer where
  /-- The greatest length of a line with its terminator. -/
  limit : Option Nat
  buffer : List UInt8
  /-- How many bytes of the buffer are known to hold no LF. -/
  searched : Nat
deriving Repr, DecidableEq

namespace Framer

def new (limit : Option Nat) : Framer := ⟨limit, [], 0⟩

def lf : UInt8 := 10

def cr : UInt8 := 13

def feed (f : Framer) (bytes : List UInt8) : Framer := { f with buffer := f.buffer ++ bytes }

/-- A value, unless the length it goes with is over the limit. -/
def within {α : Type} (f : Framer) (length : Nat) (a : α) : Except FrameError α :=
  match f.limit with
  | none => .ok a
  | some limit => if limit < length then .error ⟨length, limit⟩ else .ok a

def text (bytes : List UInt8) : String := String.ofList (Text.Utf8.decode bytes)

/-- A line without its LF, and without a CR at its end. -/
def lineText (bytes : List UInt8) : String :=
  match bytes.getLast? with
  | some b => if b = cr then text bytes.dropLast else text bytes
  | none => text bytes

/-- The next complete line. A line that is too long is left out of the buffer; an unfinished
one stays in it. -/
def next (f : Framer) : Except FrameError (Option String) × Framer :=
  let unsearched := f.buffer.drop f.searched
  let offset := (unsearched.takeWhile (· != lf)).length
  if offset < unsearched.length then
    let stop := f.searched + offset
    (f.within (stop + 1) (some (lineText (f.buffer.take stop))),
      { f with buffer := f.buffer.drop (stop + 1), searched := 0 })
  else
    (f.within f.buffer.length none, { f with searched := f.buffer.length })

/-- The next line when no more bytes will come: what is left at the end is a line too, without
the CRs at its end. -/
def nextAtEnd (f : Framer) : Except FrameError (Option String) × Framer :=
  match f.next with
  | (.ok none, f) =>
    if f.buffer.isEmpty then (.ok none, f)
    else
      let rest := Text.trimEnd (· == '\r') (Text.Utf8.decode f.buffer)
      (.ok (some (String.ofList rest)), { f with buffer := [], searched := 0 })
  | other => other

def encode (line : String) : List UInt8 :=
  Text.Utf8.encode (line.toList.takeWhile (!Text.isLineBreak ·)) ++ [cr, lf]

end Framer

end Irc
