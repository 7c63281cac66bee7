import Irc.Hostmask
import Irc.Line.Raw
import Irc.Line.Tag
import Irc.Text.Numeral
import Irc.Text.Timestamp
/-!
A line with its tags read and its command in upper case, and what the rest of the library asks
of it: parameters by position, the numeric code, the source and the server's time.
-/
namespace Irc

structure Line where
  tags : List Tag
  source? : Option String
  /-- A command in upper case, or three digits. -/
  command : String
  params : List String
deriving Repr, DecidableEq

namespace Line

def ofRaw (raw : RawLine) : Line where
  tags := (raw.tags.map Tag.readAll).getD []
  source? := raw.source.map String.ofList
  command := String.ofList (raw.command.map Char.toUpper)
  params := raw.params.map String.ofList

def read (s : String) : Except LineError Line := (RawLine.read s.toList).map ofRaw

def param? (l : Line) (i : Nat) : Option String := l.params[i]?

def paramD (l : Line) (i : Nat) : String := (l.param? i).getD ""

def trailing? (l : Line) : Option String := l.params.getLast?

def trailing (l : Line) : String := l.trailing?.getD ""

/-- The code of a numeric reply: a command of exactly three digits. -/
def numeric? (l : Line) : Option Nat :=
  if l.command.toList.length = 3 then Text.digitsValue? l.command.toList else none

/-- Who sent the line; empty where the line does not say. -/
def source (l : Line) : Hostmask := (l.source?.map Hostmask.ofString).getD Hostmask.empty

/-- The value of the first tag with a key. -/
def tag? (l : Line) (key : String) : Option String :=
  (l.tags.find? fun t => t.key == key).bind Tag.value

def serverTime? (l : Line) : Option Text.Timestamp :=
  (l.tag? "time").bind fun t => Text.Timestamp.read? t.toList

/-- Seconds since 1970: the server's time, or else the given reading of the clock. -/
def seconds (l : Line) (clock : Int) : Int := (l.serverTime?.map Text.Timestamp.seconds).getD clock

end Line

end Irc
