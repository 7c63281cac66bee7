/-! Operations that are defined for some operands only. Each gives nothing for the others, so what
is made of such operations gives something exactly if all of them have operands that they take. -/
namespace Irc.Operands

variable {α : Type}

/-- What a list holds from a position on. The position may be its end. -/
def from? (i : Nat) (l : List α) : Option (List α) := if i ≤ l.length then some (l.drop i) else none

/-- What a list holds before a position. The position may be its end. -/
def upTo? (i : Nat) (l : List α) : Option (List α) := if i ≤ l.length then some (l.take i) else none

def minus? (a b : Nat) : Option Nat := if b ≤ a then some (a - b) else none

/-- A number as the position of one of 64 bits. -/
def bit? (n : Nat) : Option (Fin 64) := if h : n < 64 then some ⟨n, h⟩ else none

theorem from?_of_le {i : Nat} {l : List α} (h : i ≤ l.length) : from? i l = some (l.drop i) :=
  if_pos h

theorem upTo?_of_le {i : Nat} {l : List α} (h : i ≤ l.length) : upTo? i l = some (l.take i) :=
  if_pos h

theorem minus?_of_le {a b : Nat} (h : b ≤ a) : minus? a b = some (a - b) := if_pos h

theorem bit?_of_lt {n : Nat} (h : n < 64) : bit? n = some ⟨n, h⟩ := dif_pos h

end Irc.Operands
