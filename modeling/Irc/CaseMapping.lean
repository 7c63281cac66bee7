import Irc.Text.Class
/-!
Case mappings. A server says under which mapping it compares nicknames and channel names;
names that fold alike name the same thing. Folding gives the lower-case form.
-/
namespace Irc

/-- A rule by which a server compares names. -/
inductive CaseMapping
  /-- `A` to `Z` fold. -/
  | ascii
  /-- `A` to `Z` fold, and `[`, `]`, `\`, `~` fold to `{`, `}`, `|`, `^`. -/
  | rfc1459
  /-- As `rfc1459`, but `~` and `^` stay apart. -/
  | strictRfc1459
deriving Repr, DecidableEq

namespace CaseMapping

/-- The mapping in force until a server names one. -/
instance : Inhabited CaseMapping := ⟨rfc1459⟩

def name : CaseMapping → String
  | ascii => "ascii"
  | rfc1459 => "rfc1459"
  | strictRfc1459 => "strict-rfc1459"

def ofName? (s : String) : Option CaseMapping :=
  [ascii, rfc1459, strictRfc1459].find? fun m => m.name == Text.lower s

def foldChar : CaseMapping → Char → Char
  | ascii, c => c.toLower
  | rfc1459, '[' | strictRfc1459, '[' => '{'
  | rfc1459, ']' | strictRfc1459, ']' => '}'
  | rfc1459, '\\' | strictRfc1459, '\\' => '|'
  | rfc1459, '~' => '^'
  | _, c => c.toLower

/-- The form of a name under which it is looked up. -/
def fold (m : CaseMapping) (s : String) : String := Text.mapChars m.foldChar s

/-- Whether two names name the same thing: they have equally many bytes and fold alike
character by character. -/
def equal (m : CaseMapping) (a b : String) : Bool :=
  a.utf8ByteSize == b.utf8ByteSize &&
    (a.toList.zip b.toList).all fun p => m.foldChar p.1 == m.foldChar p.2

@[simp] theorem toList_fold (m : CaseMapping) (s : String) :
    (m.fold s).toList = s.toList.map m.foldChar := Text.toList_mapChars _ _

end CaseMapping

end Irc
