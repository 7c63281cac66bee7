import Irc.Mode.Table
import Irc.Proofs.SortedMap
/-! What a mask means under one table of modes and under another. A letter that has different bits
in the two means the same only in masks that have both of the bits or neither. The bits of member
statuses are counted from the last status, so one more status moves all those before it. -/
namespace Irc

/-- Where the letters of one kind have their bits. -/
abbrev LetterBits := Char → Option (Fin 64)

namespace LetterBits

/-- A mask has the letter. -/
def On (bits : LetterBits) (mask : ModeMask) (letter : Char) : Prop :=
  ∃ b, bits letter = some b ∧ mask.has b = true

/-- Each letter that has a bit on both sides is on in both masks or in neither. -/
def SameOn (bits : LetterBits) (mask : ModeMask) (bits' : LetterBits) (mask' : ModeMask) : Prop :=
  ∀ letter b b', bits letter = some b → bits' letter = some b' →
    (bits'.On mask' letter ↔ bits.On mask letter)

/-- A mask has both bits of each letter or neither. -/
def Agree (bits bits' : LetterBits) (mask : ModeMask) : Prop :=
  ∀ letter b b', bits letter = some b → bits' letter = some b' → mask.has b' = mask.has b

/-- For a letter with a bit, to be on is to have this bit. -/
theorem on_iff {bits : LetterBits} {letter : Char} {b : Fin 64} (h : bits letter = some b)
    (mask : ModeMask) : bits.On mask letter ↔ mask.has b = true := by
  constructor
  · rintro ⟨b', hb', hMask⟩
    rw [h] at hb'
    cases hb'
    exact hMask
  · exact fun hMask => ⟨b, h, hMask⟩

/-- A mask means the same under both tables exactly if it has both bits of a letter or neither. -/
theorem sameOn_iff_agree (bits bits' : LetterBits) (mask : ModeMask) :
    SameOn bits mask bits' mask ↔ Agree bits bits' mask := by
  constructor
  · intro hSame letter b b' hb hb'
    rw [Bool.eq_iff_iff, ← on_iff hb, ← on_iff hb']
    exact hSame letter b b' hb hb'
  · intro hAgree letter b b' hb hb'
    rw [on_iff hb, on_iff hb', hAgree letter b b' hb hb']

end LetterBits

namespace ModeTable

/-- The bit of a channel mode that is on or off. -/
def flagBit? (t : ModeTable) (letter : Char) : Option (Fin 64) :=
  match t.kind? letter with
  | some (.flag bit) => some bit
  | _ => none

/-- How many statuses stand after a letter's last one. -/
def statusesAfter? : List (Char × Char) → Char → Option Nat
  | [], _ => none
  | (l, _) :: rest, letter =>
    (statusesAfter? rest letter).or (if letter = l then some rest.length else none)

def statusBits (m : SortedMap Char ModeKind) : LetterBits := fun letter =>
  match m.get? letter with
  | some (.status bit _) => some bit
  | _ => none

/-- Naming a letter settles whether this letter is a status, and no other. -/
theorem statusBits_insert (m : SortedMap Char ModeKind) (c : Char) (kind : ModeKind)
    (letter : Char) :
    statusBits (m.insert c kind) letter =
      if letter = c then
        match kind with
        | .status bit _ => some bit
        | _ => none
      else statusBits m letter := by
  unfold statusBits
  rw [SortedMap.get?_insert]
  by_cases h : letter = c
  · rw [if_pos h, if_pos h]
    cases kind <;> rfl
  · rw [if_neg h, if_neg h]

/-- The bit of a status is the number of statuses after its last place; other letters keep what they
had. -/
theorem statusBits_assignStatuses {statuses : List (Char × Char)} (hLength : statuses.length ≤ 64)
    (m : SortedMap Char ModeKind) (letter : Char) :
    (statusBits (assignStatuses statuses m) letter).map Fin.val =
      (statusesAfter? statuses letter).or ((statusBits m letter).map Fin.val) := by
  induction statuses generalizing m with
  | nil => rfl
  | cons status rest ih =>
      obtain ⟨l, glyph⟩ := status
      rw [List.length_cons] at hLength
      have hBit : (Fin.ofNat 64 rest.length).val = rest.length := Nat.mod_eq_of_lt (by omega)
      rw [assignStatuses, ih (by omega), statusBits_insert, statusesAfter?, Option.or_assoc]
      by_cases hLetter : letter = l
      · rw [if_pos hLetter, if_pos hLetter]
        simp only [Option.map_some, Option.some_or, hBit]
      · rw [if_neg hLetter, if_neg hLetter, Option.none_or]

def NoStatus (m : SortedMap Char ModeKind) : Prop := ∀ letter, statusBits m letter = none

theorem noStatus_empty : NoStatus SortedMap.empty := fun _ => rfl

theorem NoStatus.insert {m : SortedMap Char ModeKind} (h : NoStatus m) (c : Char) {kind : ModeKind}
    (hKind : ∀ bit glyph, kind ≠ .status bit glyph) : NoStatus (m.insert c kind) := by
  intro letter
  rw [statusBits_insert, h letter]
  by_cases hLetter : letter = c
  · rw [if_pos hLetter]
    cases kind with
    | status bit glyph => exact absurd rfl (hKind bit glyph)
    | _ => rfl
  · rw [if_neg hLetter]

/-- Letters that are given kinds one by one are no statuses if none of the kinds is one. -/
theorem NoStatus.foldl {f : SortedMap Char ModeKind → Char → SortedMap Char ModeKind}
    (hf : ∀ {m} c, NoStatus m → NoStatus (f m c)) {m : SortedMap Char ModeKind} (h : NoStatus m)
    (letters : List Char) : NoStatus (letters.foldl f m) := by
  induction letters generalizing m with
  | nil => exact h
  | cons c rest ih => exact ih (hf c h)

theorem NoStatus.assign {kind : ModeKind} (hKind : ∀ bit glyph, kind ≠ .status bit glyph)
    {m : SortedMap Char ModeKind} (h : NoStatus m) (letters : List Char) :
    NoStatus (assign kind letters m) :=
  h.foldl (fun c hm => hm.insert c hKind) letters

theorem NoStatus.insertIfNew {m : SortedMap Char ModeKind} (h : NoStatus m) (c : Char)
    {kind : ModeKind} (hKind : ∀ bit glyph, kind ≠ .status bit glyph) :
    NoStatus (m.insertIfNew c kind) := by
  intro letter
  have hBits := h letter
  unfold statusBits at hBits ⊢
  rw [SortedMap.get?_insertIfNew]
  by_cases hLetter : letter = c
  · subst hLetter
    rw [if_pos rfl]
    cases hOld : m.get? letter with
    | none =>
        cases kind with
        | status bit glyph => exact absurd rfl (hKind bit glyph)
        | _ => rfl
    | some old =>
        rw [hOld] at hBits
        exact hBits
  · rw [if_neg hLetter]
    exact hBits

theorem NoStatus.assignFlag {m : SortedMap Char ModeKind} (c : Char) (h : NoStatus m) :
    NoStatus (assignFlag m c) := by
  unfold ModeTable.assignFlag
  split
  · exact h
  · simp only
    split
    · exact h.insert c (by simp)
    · exact h

theorem NoStatus.assignBare {m : SortedMap Char ModeKind} (c : Char) (h : NoStatus m) :
    NoStatus (assignBare m c) := by
  unfold ModeTable.assignBare
  split
  case h_6 => exact h.assignFlag c
  all_goals exact h.insert _ (by simp)

/-- None of the four groups has statuses in it. -/
theorem noStatus_ofGroups (g : ModeGroups) : NoStatus (ofGroups g) := by
  have hLists : NoStatus (assign .list g.lists.toList SortedMap.empty) :=
    noStatus_empty.assign (by simp) _
  have hAlways : NoStatus (assign .doubleParameter g.always.toList _) :=
    hLists.assign (by simp) _
  have hWhenSet : NoStatus (assign .parameter g.whenSet.toList _) := hAlways.assign (by simp) _
  exact hWhenSet.foldl NoStatus.assignFlag g.never.toList

/-- Statuses are announced apart, so the channel letters have none among them. -/
theorem noStatus_channelLetters (support : Support) (info : ServerInfo) :
    NoStatus (channelLetters support info) := by
  unfold channelLetters
  refine NoStatus.foldl (fun c h => h.insertIfNew c (by simp)) ?_ _
  cases support.modeGroups? with
  | some g => exact noStatus_ofGroups g
  | none =>
      by_cases hLetters : info.channelModes = ""
      · simp only [if_pos hLetters]
        exact noStatus_ofGroups standardGroups
      · simp only [if_neg hLetters]
        exact noStatus_empty.foldl NoStatus.assignBare _

end ModeTable

end Irc
