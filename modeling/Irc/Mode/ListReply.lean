import Irc.Numeric
import Irc.Server.Info
import Irc.Server.Support
/-!
Replies that list the entries of a list mode. A reply is a run of entry lines and one line that
ends it; which letter a line is about follows from its numeric, or is a parameter.

Some servers send more than one list through the ban numerics. A `ListDialect` says which list
an entry belongs to and which lists an end line ends.
-/
namespace Irc

inductive ListReplyPart
  | entry
  | finish
deriving Repr, DecidableEq

/-- What a list numeric carries. -/
structure ListNumeric where
  part : ListReplyPart
  /-- The letter that the numeric stands for; none where the letter is a parameter. -/
  letter? : Option Char
deriving Repr, DecidableEq

namespace ListNumeric

/-- The list numerics that do not depend on a token's value. -/
def ofNumeric? (support : Support) : Numeric → Option ListNumeric
  | .banList => some ⟨.entry, some 'b'⟩
  | .endOfBanList => some ⟨.finish, some 'b'⟩
  | .exceptList => some ⟨.entry, some (support.exceptsLetter?.getD 'e')⟩
  | .endOfExceptList => some ⟨.finish, some (support.exceptsLetter?.getD 'e')⟩
  | .inviteList => some ⟨.entry, some (support.invexLetter?.getD 'I')⟩
  | .endOfInviteList => some ⟨.finish, some (support.invexLetter?.getD 'I')⟩
  | .reopList => some ⟨.entry, some 'R'⟩
  | .endOfReopList => some ⟨.finish, some 'R'⟩
  | .quietList => some ⟨.entry, none⟩
  | .endOfQuietList => some ⟨.finish, none⟩
  | _ => none

/-- Recognises a list numeric: one of the standard ones, or the announced number and the one
after it. A code has 16 bits, so the last one has none after it. -/
def ofCode? (support : Support) (code : Nat) : Option ListNumeric :=
  match (Numeric.ofCode? code).bind (ofNumeric? support) with
  | some n => some n
  | none =>
    match support.listNumeric? with
    | none => none
    | some base =>
      if code = base then some ⟨.entry, none⟩
      else if base < 65535 ∧ code = base + 1 then some ⟨.finish, none⟩
      else none

end ListNumeric

/-- How a server's list replies are to be understood. -/
inductive ListDialect
  /-- Every numeric means what it says. -/
  | standard
  /-- Bans, quiets (`%mask`) and bans on the real name all come through the ban numerics. -/
  | hyperion
deriving Repr, DecidableEq

namespace ListDialect

instance : Inhabited ListDialect := ⟨standard⟩

def name : ListDialect → String
  | standard => "standard"
  | hyperion => "hyperion"

/-- A mask with a `!` before its first `@`. -/
def isUserMask (s : List Char) : Bool :=
  let beforeAt := s.takeWhile (· != '@')
  s.contains '@' && beforeAt.contains '!'

/-- The letter of the list that an entry belongs to, and the mask to keep. -/
def resolve : ListDialect → Char → String → Char × String
  | hyperion, 'b', entry =>
    match entry.toList with
    | [] => ('b', entry)
    | '%' :: quiet => ('q', String.ofList quiet)
    | chars => if isUserMask chars then ('b', entry) else ('d', entry)
  | _, letter, entry => (letter, entry)

/-- The letters whose replies an end line for a letter may end. -/
def ends : ListDialect → Char → List Char
  | hyperion, 'b' => ['b', 'd', 'q']
  | _, letter => [letter]

def ofVersion (version : String) : ListDialect :=
  if (ServerFamily.ofVersion version).overloadsBanList then hyperion else standard

end ListDialect

end Irc
