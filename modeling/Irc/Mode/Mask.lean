/-!
Sets of modes as 64 bits. A mode that is on or off has a bit position; `has_set` says what
turning one on or off does to each position.
-/
namespace Irc

/-- Which modes are on, by bit position. -/
abbrev ModeMask := BitVec 64

namespace ModeMask

def none : ModeMask := 0

def all : ModeMask := BitVec.allOnes 64

def has (m : ModeMask) (bit : Fin 64) : Bool := m.getLsbD bit.val

def set (m : ModeMask) (bit : Fin 64) (on : Bool) : ModeMask :=
  if on then m ||| BitVec.twoPow 64 bit.val else m &&& ~~~(BitVec.twoPow 64 bit.val)

theorem has_set (m : ModeMask) (i j : Fin 64) (on : Bool) :
    (m.set i on).has j = if j = i then on else m.has j := by
  have hj := j.isLt
  by_cases h : j = i
  · subst h
    cases on <;> simp [set, has]
  · have hne : ¬j.val = i.val := fun he => h (Fin.ext he)
    cases on <;> simp [set, has, h, hne]

end ModeMask

end Irc
