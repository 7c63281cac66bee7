import Irc.Network.Channel
import Irc.Proofs.Mode.Bits
import Irc.Proofs.Mode.Reading
import Irc.Proofs.SortedMap
/-! What mode changes make of a channel, letter by letter. Each letter has a place of its own: a
bit of a mask, a value or a list. So what is found there in the end depends on the changes of that
letter alone, and changes of different letters may be mixed in any way. -/
namespace Irc

namespace ModeChange

def ofLetter (letter : Char) (changes : List ModeChange) : List ModeChange :=
  changes.filter (·.letter == letter)

/-- The nickname that a change has as its parameter is a certain user's. -/
def isAbout (find : String → Option ClientId) (id : ClientId) (change : ModeChange) : Bool :=
  change.param.bind find == some id

/-- The sign of the last change; without one, what it was before. -/
def lastSign (changes : List ModeChange) (before : Bool) : Bool :=
  (changes.getLast?.map adding).getD before

/-- The value that a change leaves. -/
def value? (change : ModeChange) : Option String :=
  if change.adding then change.param else none

/-- The value that the last change leaves; without one, what it was before. -/
def lastValue (changes : List ModeChange) (before : Option String) : Option String :=
  (changes.getLast?.map value?).getD before

/-- What a change makes of a list: an entry is added unless its mask is listed, and all entries
with a mask are removed. -/
def onList (setter : String) (time : Int) (l : List ListEntry) (change : ModeChange) :
    List ListEntry :=
  match change.param with
  | none => l
  | some mask =>
    if change.adding then
      if l.any (·.mask == mask) then l else l ++ [⟨mask, setter, time⟩]
    else l.filter (·.mask != mask)

/-- What a change makes of a mask, where some changes have a bit. -/
def onMask (bit? : ModeChange → Option (Fin 64)) (mask : ModeMask) (change : ModeChange) :
    ModeMask :=
  match bit? change with
  | some bit => mask.set bit change.adding
  | none => mask

theorem onMask_of_some {bit? : ModeChange → Option (Fin 64)} {change : ModeChange} {bit : Fin 64}
    (h : bit? change = some bit) (mask : ModeMask) :
    onMask bit? mask change = mask.set bit change.adding := by rw [onMask, h]

theorem onMask_of_none {bit? : ModeChange → Option (Fin 64)} {change : ModeChange}
    (h : bit? change = none) (mask : ModeMask) : onMask bit? mask change = mask := by
  rw [onMask, h]

/-- What is seen of a state that only some changes alter is what these alone make of it. -/
theorem foldl_seen {σ ω : Type} {step : σ → ModeChange → σ} (seen : σ → ω)
    {p : ModeChange → Bool} (alter : ω → ModeChange → ω) {changes : List ModeChange}
    (h : ∀ s, ∀ change ∈ changes,
      seen (step s change) = if p change then alter (seen s) change else seen s) (s : σ) :
    seen (changes.foldl step s) = (changes.filter p).foldl alter (seen s) := by
  induction changes generalizing s with
  | nil => rfl
  | cons change rest ih =>
      have hFirst := h s change List.mem_cons_self
      rw [List.foldl_cons, ih fun s change hMem => h s change (List.mem_cons_of_mem _ hMem), hFirst]
      by_cases hp : p change = true
      · rw [if_pos hp, List.filter_cons_of_pos hp, List.foldl_cons]
      · rw [if_neg hp, List.filter_cons_of_neg hp]

/-- If every change puts something of its own, the last one counts. -/
theorem foldl_last {ω : Type} (f : ModeChange → ω) (changes : List ModeChange) (before : ω) :
    changes.foldl (fun _ change => f change) before = (changes.getLast?.map f).getD before := by
  induction changes generalizing before with
  | nil => rfl
  | cons change rest ih =>
      rw [List.foldl_cons, ih, List.getLast?_cons, Option.map_some, Option.getD_some,
        Option.getD_map]

/-- Once one of the changes has added, it stays added. -/
theorem foldl_or (f : ModeChange → Bool) (changes : List ModeChange) (before : Bool) :
    changes.foldl (fun b change => b || f change) before = (before || changes.any f) := by
  induction changes generalizing before with
  | nil => exact (Bool.or_false before).symm
  | cons change rest ih => rw [List.foldl_cons, ih, List.any_cons, Bool.or_assoc]

/-- A bit has the sign of the last change that has this bit. -/
theorem has_foldl_onMask (bit? : ModeChange → Option (Fin 64)) (changes : List ModeChange)
    (mask : ModeMask) (bit : Fin 64) :
    (changes.foldl (onMask bit?) mask).has bit =
      lastSign (changes.filter (bit? · == some bit)) (mask.has bit) := by
  have hStep : ∀ mask, ∀ change ∈ changes, (onMask bit? mask change).has bit =
      if bit? change == some bit then change.adding else mask.has bit := by
    intro mask change _
    cases hBit : bit? change with
    | none =>
        rw [onMask_of_none hBit]
        rfl
    | some b =>
        rw [onMask_of_some hBit]
        by_cases hb : b = bit
        · rw [ModeMask.has_set, if_pos hb.symm, if_pos (by rw [hb, beq_self_eq_true])]
        · rw [ModeMask.has_set, if_neg (Ne.symm hb), if_neg]
          exact fun hEq => hb (Option.some.inj (beq_iff_eq.mp hEq))
  have hAll := foldl_seen (·.has bit) (fun _ change => change.adding) hStep mask
  exact hAll.trans (foldl_last adding _ _)

/-- A bit that was off is on after changes that only add, if one of them has it. -/
theorem lastSign_eq_true_iff {changes : List ModeChange}
    (h : ∀ change ∈ changes, change.adding = true) :
    lastSign changes false = true ↔ ∃ change, change ∈ changes := by
  rw [lastSign]
  cases hLast : changes.getLast? with
  | none =>
      rw [List.getLast?_eq_none_iff.mp hLast]
      simp
  | some last =>
      have hIn : last ∈ changes := List.mem_of_getLast? hLast
      exact ⟨fun _ => ⟨last, hIn⟩, fun _ => h last hIn⟩

section Bits

variable {bits : LetterBits} {about : ModeChange → Bool} {changes : List ModeChange}

/-- The bit of a change that is about something. -/
def bitIf (bits : LetterBits) (about : ModeChange → Bool) (change : ModeChange) :
    Option (Fin 64) :=
  if about change then bits change.letter else none

/-- A change is about a bit if it is about the user, and its letter has this bit. -/
theorem bitIf_eq_some {change : ModeChange} {bit : Fin 64} :
    bitIf bits about change = some bit ↔ about change = true ∧ bits change.letter = some bit := by
  rw [bitIf, Option.ite_none_right_eq_some]

theorem bitIf_eq_none {change : ModeChange} (h : bits change.letter = none) :
    bitIf bits about change = none := by rw [bitIf, h, ite_self]

/-- Where letters are apart, the bit of a letter has the sign of the letter's last change. -/
theorem has_foldl_of_apart (hApart : bits.Apart) {letter : Char} {bit : Fin 64}
    (h : bits letter = some bit) (mask : ModeMask) :
    (changes.foldl (onMask (bitIf bits about)) mask).has bit =
      lastSign ((ofLetter letter changes).filter about) (mask.has bit) := by
  rw [has_foldl_onMask, ofLetter, List.filter_filter]
  congr 1
  refine List.filter_congr fun change _ => ?_
  rw [Bool.eq_iff_iff, Bool.and_eq_true, beq_iff_eq, beq_iff_eq, bitIf_eq_some]
  refine and_congr_right fun _ => ⟨fun hBit => hApart hBit h, ?_⟩
  rintro rfl
  exact h

/-- A bit that no letter has stays as it is. -/
theorem has_foldl_of_no_letter {bit : Fin 64} (h : ∀ letter, bits letter ≠ some bit)
    (mask : ModeMask) :
    (changes.foldl (onMask (bitIf bits about)) mask).has bit = mask.has bit := by
  have hNone : changes.filter (bitIf bits about · == some bit) = [] :=
    List.filter_eq_nil_iff.mpr fun change _ hBit =>
      h change.letter (bitIf_eq_some.mp (beq_iff_eq.mp hBit)).2
  rw [has_foldl_onMask, hNone]
  rfl

end Bits

end ModeChange

namespace Channel

open ModeChange

section Changes

variable {t : ModeTable} {find : String → Option ClientId} {setter : String} {time : Int}
  {change : ModeChange}

/-- What one change makes of a channel, whether or not it has an effect. -/
def changed (find : String → Option ClientId) (setter : String) (time : Int) (c : Channel)
    (change : ModeChange) : Channel :=
  (c.applyChange? find setter time change).getD c

theorem applyChanges_snd (find : String → Option ClientId) (setter : String) (time : Int)
    (c : Channel) (changes : List ModeChange) :
    (c.applyChanges find setter time changes).2 = changes.foldl (changed find setter time) c := by
  induction changes generalizing c with
  | nil => rfl
  | cons change rest ih =>
      rw [applyChanges, List.foldl_cons, changed]
      cases hChange : c.applyChange? find setter time change with
      | none => exact ih c
      | some c' => exact ih c'

/-- A flag changes its bit of the channel, and nothing else. -/
theorem changed_flag {bit : Fin 64} (h : change.kind = .flag bit) (c : Channel) :
    changed find setter time c change = { c with flags := c.flags.set bit change.adding } := by
  rw [changed, applyChange?, h]
  rfl

/-- A mode with a value sets or takes away its value. -/
theorem changed_parameter (h : change.kind = .parameter ∨ change.kind = .doubleParameter)
    (c : Channel) :
    changed find setter time c change =
      { c with params := match change.value? with
        | some v => c.params.insert change.letter v
        | none => c.params.erase change.letter } := by
  rw [changed, applyChange?, value?]
  rcases h with h | h
  all_goals
    rw [h]
    cases change.adding <;> cases change.param <;> rfl

/-- To remove entries is to keep the others, also where there are none to remove. -/
theorem getD_removeEntries? (c : Channel) (letter : Char) (mask : String) :
    (c.removeEntries? letter mask).getD c =
      { c with lists := c.lists.modify letter (List.filter (·.mask != mask)) } := by
  rw [removeEntries?]
  by_cases hAny : (c.list letter).any (·.mask == mask) = true
  · rw [if_pos hAny, Option.getD_some]
    cases hList : c.lists.get? letter with
    | none =>
        rw [list, hList] at hAny
        cases hAny
    | some l =>
        rw [SortedMap.modify, list, hList]
        rfl
  · have hSame : c.lists.modify letter (List.filter (·.mask != mask)) = c.lists := by
      refine SortedMap.modify_eq_self fun l hList => List.filter_eq_self.mpr fun e he => ?_
      rw [bne_iff_ne]
      refine fun hEq => hAny (List.any_eq_true.mpr ⟨e, ?_, beq_iff_eq.mpr hEq⟩)
      rw [list, Option.mem_def.mp hList]
      exact he
    rw [if_neg hAny, hSame]
    rfl

/-- A list mode adds or removes one mask of its list. -/
theorem changed_list {mask : String} (h : change.kind = .list) (hMask : change.param = some mask)
    (c : Channel) :
    changed find setter time c change =
      { c with lists :=
          if change.adding then
            c.lists.insert change.letter (onList setter time (c.list change.letter) change)
          else c.lists.modify change.letter (onList setter time · change) } := by
  simp only [changed, applyChange?, onList, h, hMask]
  by_cases hSign : change.adding = true
  · simp only [if_pos hSign]
    rfl
  · simp only [if_neg hSign]
    exact getD_removeEntries? c change.letter mask

/-- A status changes the bit of the member who is named, if that is a member. -/
theorem changed_status {bit : Fin 64} {glyph : Char} (h : change.kind = .status bit glyph)
    (c : Channel) :
    changed find setter time c change =
      { c with members := match change.param.bind find with
        | some id => c.members.modify id fun m => { m with modes := m.modes.set bit change.adding }
        | none => c.members } := by
  rw [changed, applyChange?, h]
  cases change.param with
  | none => rfl
  | some nick =>
      rw [Option.bind_some]
      cases hFind : find nick with
      | none => simp only [hFind]; rfl
      | some id =>
          simp only [hFind, SortedMap.modify]
          cases c.members.get? id <;> rfl

/-- A change of a list has a mask. -/
theorem exists_mask (h : change.Fits t) (hKind : change.kind = .list) :
    ∃ mask, change.param = some mask := by
  rw [← Option.isSome_iff_exists, h.param_eq, hKind]
  rfl

/-- No change touches anything but flags, values, lists and the statuses of members. -/
theorem changed_frame (h : change.Fits t) (c : Channel) {c' : Channel}
    (hc' : changed find setter time c change = c') :
    c' = { c with flags := c'.flags, params := c'.params, lists := c'.lists,
                  members := c'.members } := by
  subst hc'
  cases hKind : change.kind with
  | flag bit => rw [changed_flag hKind]
  | parameter => rw [changed_parameter (.inl hKind)]
  | doubleParameter => rw [changed_parameter (.inr hKind)]
  | list =>
      obtain ⟨mask, hMask⟩ := exists_mask h hKind
      rw [changed_list hKind hMask]
  | status bit glyph => rw [changed_status hKind]

/-- One change sets or clears the flag of its letter, if the letter is a flag. -/
theorem flags_changed (h : change.Fits t) (c : Channel) :
    (changed find setter time c change).flags =
      onMask (bitIf t.flagBit? fun _ => true) c.flags change := by
  have hLetter := h.kind_eq
  cases hKind : change.kind with
  | flag bit =>
      have hBit : bitIf t.flagBit? (fun _ => true) change = some bit := by
        rw [bitIf, if_pos rfl, ModeTable.flagBit?, hLetter, hKind]
      rw [changed_flag hKind, onMask_of_some hBit]
  | parameter =>
      have hNone : t.flagBit? change.letter = none := by rw [ModeTable.flagBit?, hLetter, hKind]
      rw [changed_parameter (.inl hKind), onMask_of_none (bitIf_eq_none hNone)]
  | doubleParameter =>
      have hNone : t.flagBit? change.letter = none := by rw [ModeTable.flagBit?, hLetter, hKind]
      rw [changed_parameter (.inr hKind), onMask_of_none (bitIf_eq_none hNone)]
  | list =>
      have hNone : t.flagBit? change.letter = none := by rw [ModeTable.flagBit?, hLetter, hKind]
      obtain ⟨mask, hMask⟩ := exists_mask h hKind
      rw [changed_list hKind hMask, onMask_of_none (bitIf_eq_none hNone)]
  | status bit glyph =>
      have hNone : t.flagBit? change.letter = none := by rw [ModeTable.flagBit?, hLetter, hKind]
      rw [changed_status hKind, onMask_of_none (bitIf_eq_none hNone)]

/-- One change settles the value of its letter, if the letter has a value. -/
theorem param_changed (h : change.Fits t) (c : Channel) (letter : Char) :
    (changed find setter time c change).params.get? letter =
      if letter = change.letter ∧ (change.kind = .parameter ∨ change.kind = .doubleParameter)
      then change.value? else c.params.get? letter := by
  by_cases hKind : change.kind = .parameter ∨ change.kind = .doubleParameter
  · rw [changed_parameter hKind]
    simp only [and_iff_left hKind]
    cases change.value? with
    | none => exact SortedMap.get?_erase ..
    | some v => exact SortedMap.get?_insert ..
  · rw [if_neg fun hBoth => hKind hBoth.2]
    cases hOther : change.kind with
    | flag bit => rw [changed_flag hOther]
    | parameter => exact absurd (.inl hOther) hKind
    | doubleParameter => exact absurd (.inr hOther) hKind
    | list =>
        obtain ⟨mask, hMask⟩ := exists_mask h hOther
        rw [changed_list hOther hMask]
    | status bit glyph => rw [changed_status hOther]

/-- One change adds to the list of its letter or removes from it, if the letter has a list. -/
theorem lists_changed (h : change.Fits t) (c : Channel) (letter : Char) :
    (changed find setter time c change).lists.get? letter =
      if letter = change.letter ∧ change.kind = .list then
        if change.adding then some (onList setter time (c.list letter) change)
        else (c.lists.get? letter).map (onList setter time · change)
      else c.lists.get? letter := by
  cases hKind : change.kind with
  | list =>
      obtain ⟨mask, hMask⟩ := exists_mask h hKind
      rw [changed_list hKind hMask]
      by_cases hSign : change.adding = true <;> by_cases hLetter : letter = change.letter
      · simp only [hSign, hLetter, and_true, if_true, SortedMap.get?_insert_self]
      · simp only [hSign, hLetter, false_and, if_true, if_false,
          SortedMap.get?_insert_of_ne _ hLetter]
      · simp only [hSign, hLetter, and_true, Bool.false_eq_true, if_true, if_false,
          SortedMap.get?_modify]
      · simp only [hSign, hLetter, false_and, Bool.false_eq_true, if_false, SortedMap.get?_modify]
  | flag bit => rw [changed_flag hKind, if_neg fun hBoth => ModeKind.noConfusion hBoth.2]
  | parameter =>
      rw [changed_parameter (.inl hKind), if_neg fun hBoth => ModeKind.noConfusion hBoth.2]
  | doubleParameter =>
      rw [changed_parameter (.inr hKind), if_neg fun hBoth => ModeKind.noConfusion hBoth.2]
  | status bit glyph =>
      rw [changed_status hKind, if_neg fun hBoth => ModeKind.noConfusion hBoth.2]

/-- One change sets or clears a status of the member who is named, if the letter is a status. -/
theorem members_changed (h : change.Fits t) (c : Channel) (id : ClientId) :
    (changed find setter time c change).members.get? id =
      (c.members.get? id).map fun m =>
        { m with modes := onMask (bitIf t.statusBit? (isAbout find id)) m.modes change } := by
  have hLetter := h.kind_eq
  have hKept (hNone : bitIf t.statusBit? (isAbout find id) change = none) :
      c.members.get? id = (c.members.get? id).map fun m =>
        { m with modes := onMask (bitIf t.statusBit? (isAbout find id)) m.modes change } := by
    simp only [onMask_of_none hNone]
    exact Option.map_id'.symm
  cases hKind : change.kind with
  | flag bit =>
      have hNone : t.statusBit? change.letter = none := by rw [ModeTable.statusBit?, hLetter, hKind]
      rw [changed_flag hKind]
      exact hKept (bitIf_eq_none hNone)
  | parameter =>
      have hNone : t.statusBit? change.letter = none := by rw [ModeTable.statusBit?, hLetter, hKind]
      rw [changed_parameter (.inl hKind)]
      exact hKept (bitIf_eq_none hNone)
  | doubleParameter =>
      have hNone : t.statusBit? change.letter = none := by rw [ModeTable.statusBit?, hLetter, hKind]
      rw [changed_parameter (.inr hKind)]
      exact hKept (bitIf_eq_none hNone)
  | list =>
      have hNone : t.statusBit? change.letter = none := by rw [ModeTable.statusBit?, hLetter, hKind]
      obtain ⟨mask, hMask⟩ := exists_mask h hKind
      rw [changed_list hKind hMask]
      exact hKept (bitIf_eq_none hNone)
  | status bit glyph =>
      have hBit : t.statusBit? change.letter = some bit := by
        rw [ModeTable.statusBit?, hLetter, hKind]
      rw [changed_status hKind]
      cases hNick : change.param.bind find with
      | none =>
          have hNot : ¬isAbout find id change = true := by
            rw [isAbout, hNick]
            exact Bool.false_ne_true
          exact hKept (by rw [bitIf, if_neg hNot])
      | some about =>
          have hAbout : isAbout find id change = true ↔ id = about := by
            rw [isAbout, hNick, beq_iff_eq, Option.some.injEq, eq_comm]
          rw [SortedMap.get?_modify]
          by_cases hId : id = about
          · have hSet : bitIf t.statusBit? (isAbout find id) change = some bit := by
              rw [bitIf, if_pos (hAbout.mpr hId), hBit]
            rw [if_pos hId, ← hId]
            simp only [onMask_of_some hSet]
          · rw [if_neg hId]
            exact hKept (by rw [bitIf, if_neg (mt hAbout.mp hId)])

theorem list_changed (h : change.Fits t) {letter : Char} (hList : t.kind? letter = some .list)
    (c : Channel) :
    (changed find setter time c change).list letter =
        (if change.letter == letter then onList setter time (c.list letter) change
          else c.list letter) ∧
      (changed find setter time c change).lists.contains letter =
        if change.letter == letter then c.lists.contains letter || change.adding
        else c.lists.contains letter := by
  have hNothing : change.adding ≠ true → onList setter time [] change = [] := by
    intro hSign
    rw [onList]
    cases change.param with
    | none => rfl
    | some mask => exact if_neg hSign
  rw [list, SortedMap.contains, lists_changed h]
  by_cases hLetter : change.letter = letter
  · have hKind : change.kind = .list := by
      rw [← hLetter, h.kind_eq] at hList
      exact Option.some.inj hList
    rw [if_pos ⟨hLetter.symm, hKind⟩, if_pos (beq_iff_eq.mpr hLetter),
      if_pos (beq_iff_eq.mpr hLetter), SortedMap.contains]
    by_cases hSign : change.adding = true
    · rw [if_pos hSign, hSign, Bool.or_true]
      exact ⟨rfl, rfl⟩
    · rw [if_neg hSign, Bool.eq_false_iff.mpr hSign, Bool.or_false, Option.isSome_map]
      refine ⟨?_, rfl⟩
      rw [← hNothing hSign]
      exact Option.getD_map ..
  · rw [if_neg fun hBoth => hLetter hBoth.1.symm, if_neg (mt beq_iff_eq.mp hLetter),
      if_neg (mt beq_iff_eq.mp hLetter)]
    exact ⟨rfl, rfl⟩

end Changes

/-- What changes make of a channel where each letter is looked at alone, and all else is left as
it is. -/
structure ChangedByLetter (t : ModeTable) (find : String → Option ClientId) (setter : String)
    (time : Int) (changes : List ModeChange) (c c' : Channel) : Prop where
  flag : ∀ {letter bit}, t.flagBit? letter = some bit →
    c'.flags.has bit = lastSign (ofLetter letter changes) (c.flags.has bit)
  otherFlag : ∀ {bit}, (∀ letter, t.flagBit? letter ≠ some bit) →
    c'.flags.has bit = c.flags.has bit
  param : ∀ {letter}, t.kind? letter = some .parameter ∨ t.kind? letter = some .doubleParameter →
    c'.params.get? letter = lastValue (ofLetter letter changes) (c.params.get? letter)
  otherParam : ∀ {letter},
    ¬(t.kind? letter = some .parameter ∨ t.kind? letter = some .doubleParameter) →
    c'.params.get? letter = c.params.get? letter
  list : ∀ {letter}, t.kind? letter = some .list →
    c'.list letter = (ofLetter letter changes).foldl (onList setter time) (c.list letter)
  /-- There is a list, though it may be empty, where there was one or an entry was added. -/
  listed : ∀ {letter}, t.kind? letter = some .list →
    c'.lists.contains letter = (c.lists.contains letter || (ofLetter letter changes).any adding)
  otherList : ∀ {letter}, t.kind? letter ≠ some .list →
    c'.lists.get? letter = c.lists.get? letter
  member : ∀ {id m}, c.member? id = some m → ∃ modes, c'.member? id = some { m with modes } ∧
    (∀ letter bit, t.statusBit? letter = some bit → modes.has bit =
      lastSign ((ofLetter letter changes).filter (isAbout find id)) (m.modes.has bit)) ∧
    ∀ bit, (∀ letter, t.statusBit? letter ≠ some bit) → modes.has bit = m.modes.has bit
  noMember : ∀ {id}, c.member? id = none → c'.member? id = none
  frame : c' = { c with flags := c'.flags, params := c'.params, lists := c'.lists,
                        members := c'.members }

section Run

variable {t : ModeTable} {find : String → Option ClientId} {setter : String} {time : Int}
  {changes : List ModeChange} {c : Channel}

/-- No number of changes touches anything but flags, values, lists and the statuses of members. -/
theorem foldl_frame (hFits : ∀ change ∈ changes, change.Fits t) {c' : Channel}
    (hc' : changes.foldl (changed find setter time) c = c') :
    c' = { c with flags := c'.flags, params := c'.params, lists := c'.lists,
                  members := c'.members } := by
  induction changes generalizing c with
  | nil => rw [← hc', List.foldl_nil]
  | cons change rest ih =>
      obtain ⟨hFirst, hRest⟩ := List.forall_mem_cons.mp hFits
      rw [ih hRest hc', changed_frame hFirst c rfl]

/-- The flags after all changes are those that the changes make of the mask one by one. -/
theorem flags_foldl (hFits : ∀ change ∈ changes, change.Fits t) (c : Channel) :
    (changes.foldl (changed find setter time) c).flags =
      changes.foldl (onMask (bitIf t.flagBit? fun _ => true)) c.flags := by
  induction changes generalizing c with
  | nil => rfl
  | cons change rest ih =>
      obtain ⟨hFirst, hRest⟩ := List.forall_mem_cons.mp hFits
      rw [List.foldl_cons, List.foldl_cons, ih hRest, flags_changed hFirst]

/-- The statuses of a member after all changes are those that the changes make of the mask one by
one. -/
theorem members_foldl (hFits : ∀ change ∈ changes, change.Fits t) (c : Channel) (id : ClientId) :
    (changes.foldl (changed find setter time) c).members.get? id =
      (c.members.get? id).map fun m => { m with
        modes := changes.foldl (onMask (bitIf t.statusBit? (isAbout find id))) m.modes } := by
  induction changes generalizing c with
  | nil => exact Option.map_id'.symm
  | cons change rest ih =>
      obtain ⟨hFirst, hRest⟩ := List.forall_mem_cons.mp hFits
      rw [List.foldl_cons, ih hRest, members_changed hFirst, Option.map_map]
      rfl

/-- The value of a letter is settled by the last change of this letter. -/
theorem param_foldl (hFits : ∀ change ∈ changes, change.Fits t) {letter : Char}
    (hValue : t.kind? letter = some .parameter ∨ t.kind? letter = some .doubleParameter)
    (c : Channel) :
    (changes.foldl (changed find setter time) c).params.get? letter =
      lastValue (ofLetter letter changes) (c.params.get? letter) := by
  have hStep : ∀ c, ∀ change ∈ changes, (changed find setter time c change).params.get? letter =
      if change.letter == letter then change.value? else c.params.get? letter := by
    intro c change hMem
    have hFit := hFits change hMem
    rw [param_changed hFit]
    by_cases hLetter : change.letter = letter
    · rw [← hLetter, hFit.kind_eq, Option.some.injEq, Option.some.injEq] at hValue
      rw [if_pos ⟨hLetter.symm, hValue⟩, if_pos (beq_iff_eq.mpr hLetter)]
    · rw [if_neg fun hBoth => hLetter hBoth.1.symm, if_neg (mt beq_iff_eq.mp hLetter)]
  have hAll := foldl_seen (·.params.get? letter) (fun _ change => change.value?) hStep c
  exact hAll.trans (foldl_last value? _ _)

/-- A letter that has no value gets none. -/
theorem otherParam_foldl (hFits : ∀ change ∈ changes, change.Fits t) {letter : Char}
    (hOther : ¬(t.kind? letter = some .parameter ∨ t.kind? letter = some .doubleParameter))
    (c : Channel) :
    (changes.foldl (changed find setter time) c).params.get? letter = c.params.get? letter := by
  refine List.foldlRecOn (motive := fun c' : Channel => c'.params.get? letter = _) changes
    (changed find setter time) rfl fun c' hc' change hMem => ?_
  have hFit := hFits change hMem
  rw [param_changed hFit, if_neg, hc']
  rintro ⟨rfl, hKind⟩
  rw [hFit.kind_eq, Option.some.injEq, Option.some.injEq] at hOther
  exact hOther hKind

/-- A letter that has no list gets none. -/
theorem otherList_foldl (hFits : ∀ change ∈ changes, change.Fits t) {letter : Char}
    (hOther : t.kind? letter ≠ some .list) (c : Channel) :
    (changes.foldl (changed find setter time) c).lists.get? letter = c.lists.get? letter := by
  refine List.foldlRecOn (motive := fun c' : Channel => c'.lists.get? letter = _) changes
    (changed find setter time) rfl fun c' hc' change hMem => ?_
  have hFit := hFits change hMem
  rw [lists_changed hFit, if_neg, hc']
  rintro ⟨rfl, hKind⟩
  rw [hFit.kind_eq, hKind] at hOther
  exact hOther rfl

/-- All that changes with a table's kinds do is to change each letter. -/
theorem changedByLetter_of_fits (h : t.OfAServer) (hFits : ∀ change ∈ changes, change.Fits t)
    (c : Channel) :
    ChangedByLetter t find setter time changes c
      (c.applyChanges find setter time changes).2 := by
  have hEvery : ∀ letter, (ofLetter letter changes).filter (fun _ => true) =
      ofLetter letter changes := fun letter => List.filter_eq_self.mpr fun _ _ => rfl
  rw [applyChanges_snd]
  constructor
  case flag =>
    intro letter bit hBit
    rw [flags_foldl hFits, has_foldl_of_apart h.flags_apart hBit, hEvery]
  case otherFlag =>
    intro bit hNone
    rw [flags_foldl hFits, has_foldl_of_no_letter hNone]
  case param => exact fun hValue => param_foldl hFits hValue c
  case otherParam => exact fun hOther => otherParam_foldl hFits hOther c
  case list =>
    intro letter hList
    have hStep : ∀ c, ∀ change ∈ changes, (changed find setter time c change).list letter =
        if change.letter == letter then onList setter time (c.list letter) change
        else c.list letter :=
      fun c change hMem => (list_changed (hFits change hMem) hList c).1
    exact foldl_seen (·.list letter) (onList setter time) hStep c
  case listed =>
    intro letter hList
    have hStep : ∀ c, ∀ change ∈ changes,
        (changed find setter time c change).lists.contains letter =
        if change.letter == letter then c.lists.contains letter || change.adding
        else c.lists.contains letter :=
      fun c change hMem => (list_changed (hFits change hMem) hList c).2
    have hAll := foldl_seen (·.lists.contains letter)
      (fun listed change => listed || change.adding) hStep c
    exact hAll.trans (foldl_or adding _ _)
  case otherList => exact fun hOther => otherList_foldl hFits hOther c
  case member =>
    intro id m hm
    rw [member?] at hm
    rw [member?, members_foldl hFits, hm]
    exact ⟨_, rfl, fun letter bit hBit => has_foldl_of_apart h.statuses_apart hBit m.modes,
      fun bit hNone => has_foldl_of_no_letter hNone m.modes⟩
  case noMember =>
    intro id hNone
    rw [member?] at hNone
    rw [member?, members_foldl hFits, hNone]
    rfl
  case frame => exact foldl_frame hFits rfl

namespace ChangedByLetter

variable {changes' : List ModeChange} {c' c'' : Channel}

/-- Equal changes of every letter lead to equal flags, in whatever way letters are mixed. -/
theorem flags_eq (h' : ChangedByLetter t find setter time changes c c')
    (h'' : ChangedByLetter t find setter time changes' c c'')
    (hSame : ∀ letter, ofLetter letter changes = ofLetter letter changes') :
    c'.flags = c''.flags := by
  refine ModeMask.ext_has fun bit => ?_
  by_cases hBit : ∃ letter, t.flagBit? letter = some bit
  · obtain ⟨letter, hLetter⟩ := hBit
    rw [h'.flag hLetter, h''.flag hLetter, hSame]
  · have hNone := not_exists.mp hBit
    rw [h'.otherFlag hNone, h''.otherFlag hNone]

theorem params_eq (h' : ChangedByLetter t find setter time changes c c')
    (h'' : ChangedByLetter t find setter time changes' c c'')
    (hSame : ∀ letter, ofLetter letter changes = ofLetter letter changes') :
    c'.params = c''.params := by
  refine SortedMap.ext_get? fun letter => ?_
  by_cases hValue : t.kind? letter = some .parameter ∨ t.kind? letter = some .doubleParameter
  · rw [h'.param hValue, h''.param hValue, hSame]
  · rw [h'.otherParam hValue, h''.otherParam hValue]

theorem lists_eq (h' : ChangedByLetter t find setter time changes c c')
    (h'' : ChangedByLetter t find setter time changes' c c'')
    (hSame : ∀ letter, ofLetter letter changes = ofLetter letter changes') :
    c'.lists = c''.lists := by
  refine SortedMap.ext_get? fun letter => ?_
  by_cases hList : t.kind? letter = some .list
  · have hEntries : c'.list letter = c''.list letter := by
      rw [h'.list hList, h''.list hList, hSame]
    have hListed : c'.lists.contains letter = c''.lists.contains letter := by
      rw [h'.listed hList, h''.listed hList, hSame]
    rw [Channel.list, Channel.list] at hEntries
    rw [SortedMap.contains, SortedMap.contains] at hListed
    cases hGet' : c'.lists.get? letter <;> cases hGet'' : c''.lists.get? letter
    · rfl
    · rw [hGet', hGet''] at hListed
      cases hListed
    · rw [hGet', hGet''] at hListed
      cases hListed
    · rw [hGet', hGet''] at hEntries
      exact congrArg some hEntries
  · rw [h'.otherList hList, h''.otherList hList]

theorem members_eq (h' : ChangedByLetter t find setter time changes c c')
    (h'' : ChangedByLetter t find setter time changes' c c'')
    (hSame : ∀ letter, ofLetter letter changes = ofLetter letter changes') :
    c'.members = c''.members := by
  refine SortedMap.ext_get? fun id => ?_
  rw [← member?, ← member?]
  cases hMember : c.member? id with
  | none => rw [h'.noMember hMember, h''.noMember hMember]
  | some m =>
      obtain ⟨modes', hModes', hBits', hOther'⟩ := h'.member hMember
      obtain ⟨modes'', hModes'', hBits'', hOther''⟩ := h''.member hMember
      have hModes : modes' = modes'' := by
        refine ModeMask.ext_has fun bit => ?_
        by_cases hBit : ∃ letter, t.statusBit? letter = some bit
        · obtain ⟨letter, hLetter⟩ := hBit
          rw [hBits' letter bit hLetter, hBits'' letter bit hLetter, hSame]
        · have hNone := not_exists.mp hBit
          rw [hOther' bit hNone, hOther'' bit hNone]
      rw [hModes', hModes'', hModes]

/-- What each letter's changes are determines the channel. -/
theorem unique (h' : ChangedByLetter t find setter time changes c c')
    (h'' : ChangedByLetter t find setter time changes' c c'')
    (hSame : ∀ letter, ofLetter letter changes = ofLetter letter changes') : c' = c'' := by
  rw [h'.frame, h''.frame, flags_eq h' h'' hSame, params_eq h' h'' hSame, lists_eq h' h'' hSame,
    members_eq h' h'' hSame]

end ChangedByLetter

end Run

/-- Mode changes that a mode string makes under the table of a server change each letter alone.
Where each letter has the same changes in the same order, the channel comes to be the same. -/
theorem applyChanges_by_letter {t : ModeTable} (h : t.OfAServer)
    (find : String → Option ClientId) (setter : String) (time : Int) (c : Channel)
    (pieces : List String) :
    ChangedByLetter t find setter time (ModeChange.read t pieces) c
        (c.applyChanges find setter time (ModeChange.read t pieces)).2 ∧
      ∀ pieces', (∀ letter, ofLetter letter (ModeChange.read t pieces) =
          ofLetter letter (ModeChange.read t pieces')) →
        (c.applyChanges find setter time (ModeChange.read t pieces)).2 =
          (c.applyChanges find setter time (ModeChange.read t pieces')).2 := by
  have hChanged : ∀ pieces, ChangedByLetter t find setter time (ModeChange.read t pieces) c
      (c.applyChanges find setter time (ModeChange.read t pieces)).2 :=
    fun pieces => changedByLetter_of_fits h (fun _ hMem => fits_of_mem_read hMem) c
  exact ⟨hChanged pieces, fun pieces' hSame => (hChanged pieces).unique (hChanged pieces') hSame⟩

/-- A ban is set and lifted and a user becomes an operator of a moderated channel; the two changes
of the ban keep their order among others. -/
theorem applyChanges_by_letter_of_mixed :
    let find : String → Option ClientId := fun nick => if nick = "ann" then some 0 else none
    let c : Channel := { Channel.new "#c" with members := SortedMap.empty.insert 0 { client := 0 } }
    let result := fun pieces =>
      (c.applyChanges find "bob" 5 (ModeChange.read .rfc1459 pieces)).2
    ModeTable.rfc1459.OfAServer ∧
      result ["+bo-b+m", "*!*@x", "ann", "*!*@x"] = result ["+mb-b+o", "*!*@x", "*!*@x", "ann"] ∧
      (result ["+bo-b+m", "*!*@x", "ann", "*!*@x"]).list 'b' = [] ∧
      (result ["+bo-b+m", "*!*@x", "ann", "*!*@x"]).flags.has 1 = true := by
  intro find c result
  have hRead : ModeChange.read .rfc1459 ["+bo-b+m", "*!*@x", "ann", "*!*@x"] =
      [⟨true, 'b', .list, some "*!*@x"⟩, ⟨true, 'o', .status 1 '@', some "ann"⟩,
        ⟨false, 'b', .list, some "*!*@x"⟩, ⟨true, 'm', .flag 1, none⟩] := by decide +kernel
  have hRead' : ModeChange.read .rfc1459 ["+mb-b+o", "*!*@x", "*!*@x", "ann"] =
      [⟨true, 'm', .flag 1, none⟩, ⟨true, 'b', .list, some "*!*@x"⟩,
        ⟨false, 'b', .list, some "*!*@x"⟩, ⟨true, 'o', .status 1 '@', some "ann"⟩] := by
    decide +kernel
  have hSame : ∀ letter,
      ofLetter letter (ModeChange.read .rfc1459 ["+bo-b+m", "*!*@x", "ann", "*!*@x"]) =
        ofLetter letter (ModeChange.read .rfc1459 ["+mb-b+o", "*!*@x", "*!*@x", "ann"]) := by
    intro letter
    rw [hRead, hRead', ofLetter, ofLetter]
    by_cases hb : 'b' = letter
    · subst hb
      rfl
    by_cases hm : 'm' = letter
    · subst hm
      rfl
    simp only [List.filter_cons, beq_eq_false_iff_ne.mpr hb, beq_eq_false_iff_ne.mpr hm]
    rfl
  obtain ⟨hEach, hOrder⟩ := applyChanges_by_letter .rfc1459 find "bob" 5 c
    ["+bo-b+m", "*!*@x", "ann", "*!*@x"]
  refine ⟨.rfc1459, hOrder _ hSame, ?_, ?_⟩
  · have hKind : ModeTable.rfc1459.kind? 'b' = some .list := by decide +kernel
    have hList := hEach.list hKind
    rw [hRead] at hList
    exact hList.trans (by decide +kernel)
  · have hBit : ModeTable.rfc1459.flagBit? 'm' = some 1 := by decide +kernel
    have hFlag := hEach.flag hBit
    rw [hRead] at hFlag
    exact hFlag

end Channel

end Irc
