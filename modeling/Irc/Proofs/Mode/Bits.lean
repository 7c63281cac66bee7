import Irc.Proofs.Mode.Table
/-! Letters have bits of their own. A flag gets the first bit past those of the flags before it, and
no letter that is no flag takes its place before the statuses do; the bits of statuses count the
statuses after them. So in the table of a server no two flags and no two statuses share a bit. -/
namespace Irc

/-- A mask is what it has. -/
theorem ModeMask.ext_has {m m' : ModeMask} (h : ∀ bit, m.has bit = m'.has bit) : m = m' :=
  BitVec.eq_of_getLsbD_eq fun i hi => h ⟨i, hi⟩

/-- No two letters have the same bit. -/
def LetterBits.Apart (bits : LetterBits) : Prop :=
  ∀ {letter letter' bit}, bits letter = some bit → bits letter' = some bit → letter = letter'

namespace ModeTable

def flagBits (m : SortedMap Char ModeKind) : LetterBits := fun letter =>
  match m.get? letter with
  | some (.flag bit) => some bit
  | _ => none

/-- Naming a letter gives the bit of a flag to this letter alone. -/
theorem flagBits_insert (m : SortedMap Char ModeKind) (c : Char) (kind : ModeKind)
    (letter : Char) :
    flagBits (m.insert c kind) letter =
      if letter = c then
        match kind with
        | .flag bit => some bit
        | _ => none
      else flagBits m letter := by
  unfold flagBits
  rw [SortedMap.get?_insert]
  by_cases h : letter = c
  · rw [if_pos h, if_pos h]
    cases kind <;> rfl
  · rw [if_neg h, if_neg h]

/-- A letter without such a bit is no flag, if it is anything. -/
theorem isFlag_of_flagBits {m : SortedMap Char ModeKind} {c : Char} (h : flagBits m c = none) :
    ∀ old ∈ m.get? c, old.isFlag = false := by
  intro old hOld
  rw [flagBits, Option.mem_def.mp hOld] at h
  cases old with
  | flag bit => cases h
  | _ => rfl

/-- A kind that is no flag takes a letter out of the flags, if it was one. -/
theorem flagBits_insert_other (m : SortedMap Char ModeKind) (c : Char) {kind : ModeKind}
    (hKind : kind.isFlag = false) (letter : Char) :
    flagBits (m.insert c kind) letter = if letter = c then none else flagBits m letter := by
  rw [flagBits_insert]
  cases kind with
  | flag bit => cases hKind
  | _ => rfl

/-- A letter that becomes something else takes no bit of a flag. -/
theorem apart_insert_other {m : SortedMap Char ModeKind} (h : (flagBits m).Apart)
    (c : Char) {kind : ModeKind} (hKind : kind.isFlag = false) :
    (flagBits (m.insert c kind)).Apart := by
  intro letter letter' bit hLetter hLetter'
  rw [flagBits_insert_other m c hKind] at hLetter hLetter'
  by_cases hEq : letter = c
  · rw [if_pos hEq] at hLetter
    cases hLetter
  by_cases hEq' : letter' = c
  · rw [if_pos hEq'] at hLetter'
    cases hLetter'
  rw [if_neg hEq] at hLetter
  rw [if_neg hEq'] at hLetter'
  exact h hLetter hLetter'

/-- Flags are apart, and their bits are below their number, so that the next bit is free. -/
structure FlagsCounted (m : SortedMap Char ModeKind) : Prop where
  apart : (flagBits m).Apart
  below : ∀ letter bit, flagBits m letter = some bit → bit.val < m.values.countP ModeKind.isFlag

theorem flagsCounted_empty : FlagsCounted SortedMap.empty where
  apart h := by cases h
  below _ _ h := by cases h

/-- A letter that is no flag and comes to be none leaves the flags as they are. -/
theorem FlagsCounted.insert_other {m : SortedMap Char ModeKind} (h : FlagsCounted m) {c : Char}
    (hOld : flagBits m c = none) {kind : ModeKind} (hKind : kind.isFlag = false) :
    FlagsCounted (m.insert c kind) where
  apart := apart_insert_other h.apart c hKind
  below letter bit hLetter := by
    rw [flagBits_insert_other m c hKind] at hLetter
    rw [SortedMap.countP_insert _ _ (isFlag_of_flagBits hOld), hKind]
    by_cases hEq : letter = c
    · rw [if_pos hEq] at hLetter
      cases hLetter
    · rw [if_neg hEq] at hLetter
      exact h.below letter bit hLetter

/-- A letter that becomes something else only where it is new keeps the count of the flags. -/
theorem FlagsCounted.insertIfNew {m : SortedMap Char ModeKind} (h : FlagsCounted m) (c : Char)
    {kind : ModeKind} (hKind : kind.isFlag = false) : FlagsCounted (m.insertIfNew c kind) := by
  unfold SortedMap.insertIfNew
  by_cases hThere : m.contains c = true
  · rw [if_pos hThere]
    exact h
  · rw [if_neg hThere]
    refine h.insert_other ?_ hKind
    rw [flagBits, Option.not_isSome_iff_eq_none.mp hThere]

/-- A letter that is named as a flag keeps what it is, or gets the first bit past those of the other
flags. -/
theorem assignFlag_eq (m : SortedMap Char ModeKind) (c : Char) :
    assignFlag m c = m ∨ flagBits m c = none ∧
      ∃ bit : Fin 64, bit.val = m.values.countP ModeKind.isFlag ∧
        assignFlag m c = m.insert c (.flag bit) := by
  unfold assignFlag
  by_cases hThere : m.contains c = true
  · exact .inl (if_pos hThere)
  · rw [if_neg hThere, ← List.countP_eq_length_filter]
    by_cases hFree : m.values.countP ModeKind.isFlag < 64
    · refine .inr ⟨?_, ⟨_, hFree⟩, rfl, dif_pos hFree⟩
      rw [flagBits, Option.not_isSome_iff_eq_none.mp hThere]
    · exact .inl (dif_neg hFree)

/-- A new flag gets the first bit that is past all others. -/
theorem FlagsCounted.assignFlag {m : SortedMap Char ModeKind} (h : FlagsCounted m) (c : Char) :
    FlagsCounted (assignFlag m c) := by
  rcases assignFlag_eq m c with hSame | ⟨hNew, bit, hBit, hInsert⟩
  · rw [hSame]
    exact h
  have hBits : ∀ letter, flagBits (m.insert c (.flag bit)) letter =
      if letter = c then some bit else flagBits m letter := flagBits_insert m c (.flag bit)
  have hOther : ∀ letter b, flagBits m letter = some b → b ≠ bit := by
    rintro letter _ hLetter rfl
    have hBelow := h.below letter _ hLetter
    omega
  rw [hInsert]
  refine ⟨fun {letter letter' b} hLetter hLetter' => ?_, fun letter b hLetter => ?_⟩
  · rw [hBits] at hLetter hLetter'
    by_cases hEq : letter = c <;> by_cases hEq' : letter' = c
    · rw [hEq, hEq']
    · rw [if_pos hEq] at hLetter
      rw [if_neg hEq'] at hLetter'
      exact absurd (Option.some.inj hLetter).symm (hOther _ _ hLetter')
    · rw [if_neg hEq] at hLetter
      rw [if_pos hEq'] at hLetter'
      exact absurd (Option.some.inj hLetter').symm (hOther _ _ hLetter)
    · rw [if_neg hEq] at hLetter
      rw [if_neg hEq'] at hLetter'
      exact h.apart hLetter hLetter'
  · rw [hBits] at hLetter
    rw [SortedMap.countP_insert _ _ (isFlag_of_flagBits hNew)]
    by_cases hEq : letter = c
    · rw [if_pos hEq] at hLetter
      rw [← Option.some.inj hLetter, hBit]
      exact Nat.lt_succ_self _
    · rw [if_neg hEq] at hLetter
      exact Nat.lt_add_right _ (h.below letter b hLetter)

/-- Letters that are given another kind one by one, where there are no flags yet. -/
theorem noFlags_assign {m : SortedMap Char ModeKind} (h : ∀ c, flagBits m c = none)
    {kind : ModeKind} (hKind : kind.isFlag = false) (letters : List Char) :
    ∀ c, flagBits (assign kind letters m) c = none := by
  induction letters generalizing m with
  | nil => exact h
  | cons letter rest ih =>
      refine ih fun c => ?_
      rw [flagBits_insert_other m letter hKind, h c, ite_self]

/-- In the table of the four groups the bits of flags are counted. -/
theorem flagsCounted_ofGroups (g : ModeGroups) : FlagsCounted (ofGroups g) := by
  have hNone : ∀ c, flagBits (SortedMap.empty : SortedMap Char ModeKind) c = none := fun _ => rfl
  have hLists := noFlags_assign hNone (show ModeKind.list.isFlag = false from rfl) g.lists.toList
  have hAlways := noFlags_assign hLists (show ModeKind.doubleParameter.isFlag = false from rfl)
    g.always.toList
  have hOther := noFlags_assign hAlways (show ModeKind.parameter.isFlag = false from rfl)
    g.whenSet.toList
  have hStart : FlagsCounted (assign .parameter g.whenSet.toList
      (assign .doubleParameter g.always.toList (assign .list g.lists.toList SortedMap.empty))) := by
    refine ⟨fun {letter letter' bit} hLetter => ?_, fun letter bit hLetter => ?_⟩
    · rw [hOther letter] at hLetter
      cases hLetter
    · rw [hOther letter] at hLetter
      cases hLetter
  exact List.foldlRecOn (motive := FlagsCounted) g.never.toList assignFlag hStart
    fun m hm c _ => hm.assignFlag c

/-- The bare letters whose kinds are known beforehand. -/
def knownBare : List Char := ['b', 'e', 'I', 'k', 'l']

/-- A bare letter is of a kind that everyone knows, or a flag. -/
theorem assignBare_cases (m : SortedMap Char ModeKind) (c : Char) :
    (c ∈ knownBare ∧ ∃ kind, kind.isFlag = false ∧ assignBare m c = m.insert c kind) ∨
      c ∉ knownBare ∧ assignBare m c = assignFlag m c := by
  unfold assignBare
  split
  case h_6 hB hE hI hK hL =>
    refine .inr ⟨?_, rfl⟩
    simp only [knownBare, List.mem_cons, List.not_mem_nil, or_false, not_or]
    exact ⟨hB, hE, hI, hK, hL⟩
  all_goals exact .inl ⟨by decide, _, rfl, rfl⟩

/-- The bits of flags are counted also where only the letters are announced. -/
theorem flagsCounted_ofBareLetters (letters : String) (statuses : StatusModes) :
    FlagsCounted (ofBareLetters letters statuses) := by
  -- the letters that are known are never flags, so none of them takes the place of one
  let P : SortedMap Char ModeKind → Prop := fun m =>
    FlagsCounted m ∧ ∀ c ∈ knownBare, flagBits m c = none
  have hStep : ∀ m, P m → ∀ c, P (assignBare m c) := by
    rintro m ⟨hCounted, hKnown⟩ c
    rcases assignBare_cases m c with ⟨hc, kind, hKind, hInsert⟩ | ⟨hc, hFlag⟩
    · rw [hInsert]
      refine ⟨hCounted.insert_other (hKnown c hc) hKind, fun d hd => ?_⟩
      rw [flagBits_insert_other m c hKind, hKnown d hd, ite_self]
    · rw [hFlag]
      refine ⟨hCounted.assignFlag c, fun d hd => ?_⟩
      rcases assignFlag_eq m c with hSame | ⟨_, bit, _, hInsert⟩
      · rw [hSame]
        exact hKnown d hd
      · have hNe : d ≠ c := fun hEq => hc (hEq ▸ hd)
        rw [hInsert, flagBits_insert, if_neg hNe]
        exact hKnown d hd
  exact (List.foldlRecOn (motive := P) _ assignBare ⟨flagsCounted_empty, fun _ _ => rfl⟩
    fun m hm c _ => hStep m hm c).1

/-- Whatever a server announces, the flags have the first bits, each its own. -/
theorem flagsCounted_channelLetters (support : Support) (info : ServerInfo) :
    FlagsCounted (channelLetters support info) := by
  unfold channelLetters
  refine List.foldlRecOn (motive := FlagsCounted) _ _ ?_ fun m hm c _ => hm.insertIfNew c rfl
  cases support.modeGroups? with
  | some g => exact flagsCounted_ofGroups g
  | none =>
      by_cases hLetters : info.channelModes = ""
      · simp only [if_pos hLetters]
        exact flagsCounted_ofGroups standardGroups
      · simp only [if_neg hLetters]
        exact flagsCounted_ofBareLetters info.channelModes support.statusModes

/-- Statuses may take the places of flags; those that are left stay apart. -/
theorem apart_assignStatuses {m : SortedMap Char ModeKind} (h : (flagBits m).Apart)
    (statuses : List (Char × Char)) : (flagBits (assignStatuses statuses m)).Apart := by
  induction statuses generalizing m with
  | nil => exact h
  | cons status rest ih => exact ih (apart_insert_other h status.1 rfl)

theorem statusesAfter?_lt {statuses : List (Char × Char)} {letter : Char} {k : Nat}
    (h : statusesAfter? statuses letter = some k) : k < statuses.length := by
  induction statuses with
  | nil => cases h
  | cons status rest ih =>
      rw [List.length_cons]
      rcases Option.or_eq_some_iff.mp h with hLater | ⟨_, hHere⟩
      · exact Nat.lt_succ_of_lt (ih hLater)
      · obtain ⟨_, hk⟩ := Option.ite_none_right_eq_some.mp hHere
        exact Option.some.inj hk ▸ Nat.lt_succ_self _

/-- Two letters with as many statuses after them are the same. -/
theorem statusesAfter?_injective {statuses : List (Char × Char)} {letter letter' : Char} {k : Nat}
    (h : statusesAfter? statuses letter = some k) (h' : statusesAfter? statuses letter' = some k) :
    letter = letter' := by
  induction statuses with
  | nil => cases h
  | cons status rest ih =>
      rcases Option.or_eq_some_iff.mp h with hLater | ⟨_, hHere⟩ <;>
        rcases Option.or_eq_some_iff.mp h' with hLater' | ⟨_, hHere'⟩
      · exact ih hLater hLater'
      · obtain ⟨_, hk⟩ := Option.ite_none_right_eq_some.mp hHere'
        exact absurd (statusesAfter?_lt hLater) (Option.some.inj hk ▸ Nat.lt_irrefl _)
      · obtain ⟨_, hk⟩ := Option.ite_none_right_eq_some.mp hHere
        exact absurd (statusesAfter?_lt hLater') (Option.some.inj hk ▸ Nat.lt_irrefl _)
      · obtain ⟨hLetter, _⟩ := Option.ite_none_right_eq_some.mp hHere
        obtain ⟨hLetter', _⟩ := Option.ite_none_right_eq_some.mp hHere'
        rw [hLetter, hLetter']

/-- A table is that of a server, also of one that announces nothing. -/
inductive OfAServer : ModeTable → Prop
  | rfc1459 : OfAServer rfc1459
  | ofServer (support : Support) (info : ServerInfo) : OfAServer (ofServer support info)

/-- Every table of a server is one of channel letters, completed by statuses and user modes. -/
theorem OfAServer.complete_eq {t : ModeTable} (h : t.OfAServer) :
    ∃ channel statuses userModes, t = complete channel statuses userModes ∧
      FlagsCounted channel ∧ NoStatus channel := by
  cases h with
  | rfc1459 => exact ⟨_, _, _, rfl, flagsCounted_ofGroups _, noStatus_ofGroups _⟩
  | ofServer support info =>
      exact ⟨_, _, _, rfl, flagsCounted_channelLetters support info,
        noStatus_channelLetters support info⟩

/-- In the table of a server no two flags share a bit. -/
theorem OfAServer.flags_apart {t : ModeTable} (h : t.OfAServer) :
    LetterBits.Apart t.flagBit? := by
  obtain ⟨channel, statuses, userModes, rfl, hFlags, _⟩ := h.complete_eq
  exact apart_assignStatuses hFlags.apart (statuses.take 64)

/-- No two member statuses do, either. -/
theorem OfAServer.statuses_apart {t : ModeTable} (h : t.OfAServer) :
    LetterBits.Apart t.statusBit? := by
  obtain ⟨channel, statuses, userModes, rfl, _, hNone⟩ := h.complete_eq
  have hLength : (statuses.take 64).length ≤ 64 := by
    rw [List.length_take]
    exact Nat.min_le_left _ _
  have hAfter : ∀ letter bit, (complete channel statuses userModes).statusBit? letter = some bit →
      statusesAfter? (statuses.take 64) letter = some bit.val := by
    intro letter bit hBit
    have hBits := statusBits_assignStatuses hLength channel letter
    rw [hNone letter, Option.map_none, Option.or_none] at hBits
    rw [← hBits]
    exact congrArg (Option.map Fin.val) hBit
  intro letter letter' bit hLetter hLetter'
  exact statusesAfter?_injective (hAfter _ _ hLetter) (hAfter _ _ hLetter')

end ModeTable

end Irc
