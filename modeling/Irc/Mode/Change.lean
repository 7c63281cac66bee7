import Irc.Mode.Table
/-!
Mode strings. A mode string is walked letter by letter under the last sign seen; letters that
take a parameter use up the pieces that follow. A letter that the table lacks is skipped, and
so is one whose parameter is missing.
-/
namespace Irc

structure ModeChange where
  adding : Bool
  letter : Char
  /-- The letter's kind when the change was read. -/
  kind : ModeKind
  param : Option String
deriving Repr, DecidableEq

namespace ModeChange

/-- The changes in the rest of a mode string, under a sign and with the parameters left. -/
def walk (table : ModeTable) (adding : Bool) (params : List String) :
    List Char → List ModeChange
  | [] => []
  | '+' :: rest => walk table true params rest
  | '-' :: rest => walk table false params rest
  | c :: rest =>
    match table.kind? c with
    | none => walk table adding params rest
    | some kind =>
      if kind.takesParam adding then
        match params with
        | [] => walk table adding [] rest
        | p :: params => ⟨adding, c, kind, some p⟩ :: walk table adding params rest
      else ⟨adding, c, kind, none⟩ :: walk table adding params rest

def read (table : ModeTable) : List String → List ModeChange
  | [] => []
  | modes :: params => walk table true params modes.toList

end ModeChange

namespace ModeTable

/-- Applies the rest of a user mode string to a mask, under a sign. -/
def applyUserFrom (t : ModeTable) (adding : Bool) (mask : ModeMask) : List Char → ModeMask
  | [] => mask
  | '+' :: rest => applyUserFrom t true mask rest
  | '-' :: rest => applyUserFrom t false mask rest
  | c :: rest =>
    match t.userBit? c with
    | some bit => applyUserFrom t adding (mask.set bit adding) rest
    | none => applyUserFrom t adding mask rest

/-- Applies a user mode string to a mask; unknown letters are skipped. -/
def applyUser (t : ModeTable) (mask : ModeMask) (modes : String) : ModeMask :=
  t.applyUserFrom true mask modes.toList

end ModeTable

end Irc
