/-!
Character classes that IRC text is measured by: blanks and control characters of Unicode.
Letters, digits and letter case are ASCII throughout the protocol, so `Char.isAlphanum`,
`Char.isDigit`, `Char.toUpper` and `Char.toLower` of the core library serve for those.
-/
namespace Irc.Text

/-- The Unicode property White_Space. -/
def isBlank (c : Char) : Bool :=
  let n := c.toNat
  (0x09 ≤ n && n ≤ 0x0D) || n == 0x20 || n == 0x85 || n == 0xA0 || n == 0x1680 ||
    (0x2000 ≤ n && n ≤ 0x200A) || n == 0x2028 || n == 0x2029 || n == 0x202F ||
    n == 0x205F || n == 0x3000

/-- The Unicode general category Cc. -/
def isControl (c : Char) : Bool :=
  let n := c.toNat
  n < 0x20 || (0x7F ≤ n && n ≤ 0x9F)

/-- CR or LF. -/
def isLineBreak (c : Char) : Bool := c == '\r' || c == '\n'

def mapChars (f : Char → Char) (s : String) : String := String.ofList (s.toList.map f)

@[simp] theorem toList_mapChars (f : Char → Char) (s : String) :
    (mapChars f s).toList = s.toList.map f := String.toList_ofList

def upper (s : String) : String := mapChars Char.toUpper s

def lower (s : String) : String := mapChars Char.toLower s

end Irc.Text
