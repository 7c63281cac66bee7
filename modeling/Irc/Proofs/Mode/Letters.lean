import Mathlib.Data.List.Basic
import Mathlib.Data.List.Induction
import Irc.Proofs.Mode.Bits
/-! Which kind and which bit a letter gets from what its server announces. Flags and user modes are
numbered in the order in which they are first named, whatever else is named between them or named
again; a member status counts the statuses after its last place. -/
namespace Irc

/-- A letter's bit is its place in an order; letters past the last bit have none. -/
def LetterBits.ranked (order : List Char) : LetterBits := fun letter =>
  if h : letter ∈ order ∧ order.idxOf letter < 64 then some ⟨order.idxOf letter, h.2⟩ else none

namespace LetterBits

/-- The bit of a letter is its place in the order. -/
theorem ranked_eq_some_iff {order : List Char} {letter : Char} {bit : Fin 64} :
    ranked order letter = some bit ↔ letter ∈ order ∧ order.idxOf letter = bit.val := by
  have hBit := bit.isLt
  simp only [ranked, Option.dite_none_right_eq_some, Option.some.injEq, Fin.ext_iff]
  constructor
  · rintro ⟨⟨hIn, _⟩, hRank⟩
    exact ⟨hIn, hRank⟩
  · rintro ⟨hIn, hRank⟩
    exact ⟨⟨hIn, by omega⟩, hRank⟩

/-- No two letters have the same place. -/
theorem ranked_apart (order : List Char) : (ranked order).Apart := by
  intro letter letter' bit h h'
  obtain ⟨hIn, hRank⟩ := ranked_eq_some_iff.mp h
  obtain ⟨_, hRank'⟩ := ranked_eq_some_iff.mp h'
  exact (List.idxOf_inj hIn).mp (hRank.trans hRank'.symm)

theorem ranked_of_not_mem {order : List Char} {letter : Char} (h : letter ∉ order) :
    ranked order letter = none := by
  simp [ranked, h]

/-- A letter goes without a bit only if all bits are taken. -/
theorem le_length_of_ranked_eq_none {order : List Char} {letter : Char} (hIn : letter ∈ order)
    (h : ranked order letter = none) : 64 ≤ order.length := by
  have hRank : ¬order.idxOf letter < 64 := by simpa [ranked, hIn] using h
  have hPlace := List.idxOf_lt_length_iff.mpr hIn
  omega

/-- One more letter takes the next bit, if there is one, and moves no other. -/
theorem ranked_concat {order : List Char} {c : Char} (h : c ∉ order) (letter : Char) :
    ranked (order ++ [c]) letter =
      if letter = c then (if hFree : order.length < 64 then some ⟨order.length, hFree⟩ else none)
      else ranked order letter := by
  by_cases hLetter : letter = c
  · subst hLetter
    simp [ranked, List.idxOf_append_of_notMem h]
  · by_cases hIn : letter ∈ order
    · simp [ranked, hLetter, hIn, List.idxOf_append_of_mem hIn]
    · simp [ranked, hLetter, hIn]

/-- A letter that is named once more gets no second place. -/
theorem eraseDups_concat (named : List Char) (c : Char) :
    (named ++ [c]).eraseDups =
      if c ∈ named then named.eraseDups else named.eraseDups ++ [c] := by
  by_cases h : c ∈ named <;>
    simp [List.eraseDups_append, List.removeAll, List.eraseDups_cons, h]

/-- Letters have their bits in the order in which they were first named, as long as there were
bits. -/
structure Numbered (named : List Char) (bits : LetterBits) (used : Nat) : Prop where
  bits_eq : ∀ letter, bits letter = ranked named.eraseDups letter
  used_eq : used = min 64 named.eraseDups.length

/-- Before any letter is named, none has a number. -/
theorem numbered_nil {bits : LetterBits} (h : ∀ letter, bits letter = none) :
    Numbered [] bits 0 where
  bits_eq letter := by simp [h, ranked]
  used_eq := rfl

/-- A letter that has no bit takes the next one, and any other changes nothing. -/
theorem Numbered.name {named : List Char} {bits bits' : LetterBits} {used used' : Nat}
    (h : Numbered named bits used) {c : Char}
    (hOld : bits c ≠ none ∨ 64 ≤ used → (∀ letter, bits' letter = bits letter) ∧ used' = used)
    (hNew : ∀ hFree : used < 64, bits c = none →
      (∀ letter, bits' letter = if letter = c then some ⟨used, hFree⟩ else bits letter) ∧
        used' = used + 1) :
    Numbered (named ++ [c]) bits' used' := by
  have hUsed := h.used_eq
  have hBit := h.bits_eq c
  by_cases hNamed : c ∈ named
  · have hIn : c ∈ named.eraseDups := List.mem_eraseDups.mpr hNamed
    have hSame : bits c ≠ none ∨ 64 ≤ used := by
      refine Classical.or_iff_not_imp_left.mpr fun hNone => ?_
      have hFull := le_length_of_ranked_eq_none hIn (hBit.symm.trans (not_not.mp hNone))
      omega
    obtain ⟨hBits, rfl⟩ := hOld hSame
    constructor
    · intro letter
      rw [eraseDups_concat, if_pos hNamed, hBits, h.bits_eq]
    · rw [eraseDups_concat, if_pos hNamed, hUsed]
  · have hNotIn : c ∉ named.eraseDups := mt List.mem_eraseDups.mp hNamed
    rw [ranked_of_not_mem hNotIn] at hBit
    constructor
    · intro letter
      rw [eraseDups_concat, if_neg hNamed, ranked_concat hNotIn, ← h.bits_eq]
      by_cases hFree : used < 64
      · have hLength : named.eraseDups.length = used := by omega
        simp [(hNew hFree hBit).1, hLength, hFree]
      · have hLength : ¬named.eraseDups.length < 64 := by omega
        rw [(hOld (.inr (by omega))).1, dif_neg hLength]
        by_cases hLetter : letter = c <;> simp [hLetter, hBit]
    · rw [eraseDups_concat, if_neg hNamed, List.length_append, List.length_singleton]
      by_cases hFree : used < 64
      · rw [(hNew hFree hBit).2]
        omega
      · rw [(hOld (.inr (by omega))).2]
        omega

end LetterBits

namespace ModeTable

/-- Letters have the kinds that are known beforehand, or are flags, numbered as they were
named. -/
structure Filed (known : Char → Option ModeKind) (named : List Char)
    (m : SortedMap Char ModeKind) : Prop where
  kinds : ∀ letter, m.get? letter = (known letter).or ((flagBits m letter).map .flag)
  other : ∀ letter, ∀ kind ∈ known letter, kind.isFlag = false
  numbered : LetterBits.Numbered named (flagBits m) (m.values.countP ModeKind.isFlag)

namespace Filed

variable {known : Char → Option ModeKind} {named : List Char} {m : SortedMap Char ModeKind}

/-- What a letter is: its known kind if it has one, or else the flag of its rank. -/
theorem get? (h : Filed known named m) (letter : Char) :
    m.get? letter =
      (known letter).or ((LetterBits.ranked named.eraseDups letter).map .flag) := by
  rw [h.kinds, h.numbered.bits_eq]

/-- To begin with there are the letters of other kinds only. -/
theorem start (hKinds : ∀ letter, m.get? letter = known letter)
    (hOther : ∀ letter, ∀ kind ∈ known letter, kind.isFlag = false) : Filed known [] m := by
  have hNone : ∀ letter, flagBits m letter = none := by
    intro letter
    have hKind := hOther letter
    rw [← hKinds] at hKind
    unfold flagBits
    cases hLetter : m.get? letter with
    | none => rfl
    | some kind => cases kind <;> simp_all [ModeKind.isFlag]
  have hCount : m.values.countP ModeKind.isFlag = 0 := by
    simp only [List.countP_eq_zero, Bool.not_eq_true]
    intro kind hKind
    obtain ⟨letter, hLetter⟩ := SortedMap.mem_values_iff.mp hKind
    exact hOther letter kind ((hKinds letter).symm.trans hLetter)
  refine ⟨fun letter => ?_, hOther, ?_⟩
  · simp [hKinds, hNone]
  · rw [hCount]
    exact LetterBits.numbered_nil hNone

/-- A letter that is no flag gets another kind. -/
theorem insert (h : Filed known named m) {c : Char} (hNew : c ∉ named) {kind : ModeKind}
    (hKind : kind.isFlag = false) :
    Filed (fun letter => if letter = c then some kind else known letter) named
      (m.insert c kind) := by
  have hNone : flagBits m c = none := by
    rw [h.numbered.bits_eq]
    exact LetterBits.ranked_of_not_mem (mt List.mem_eraseDups.mp hNew)
  have hBits : flagBits (m.insert c kind) = flagBits m := by
    funext letter
    rw [flagBits_insert_other m c hKind]
    by_cases hLetter : letter = c <;> simp [hLetter, hNone]
  refine ⟨fun letter => ?_, fun letter => ?_, ?_⟩
  · rw [SortedMap.get?_insert, hBits]
    by_cases hLetter : letter = c <;> simp [hLetter, h.kinds letter]
  · by_cases hLetter : letter = c
    · simp [hLetter, hKind]
    · simpa [hLetter] using h.other letter
  · rw [hBits, SortedMap.countP_insert _ _ (isFlag_of_flagBits hNone), hKind]
    exact h.numbered

/-- A letter of another kind is not made a flag. -/
theorem assignFlag_of_known (h : Filed known named m) {c : Char} (hKnown : known c ≠ none) :
    assignFlag m c = m := by
  obtain ⟨kind, hKind⟩ := Option.ne_none_iff_exists'.mp hKnown
  simp [assignFlag, SortedMap.contains, h.kinds c, hKind]

/-- Naming one more letter that has no kind beforehand gives it the next rank. -/
theorem name (h : Filed known named m) {c : Char} (hKnown : known c = none) :
    Filed known (named ++ [c]) (assignFlag m c) := by
  have hKind : m.get? c = (flagBits m c).map .flag := by simp [h.kinds c, hKnown]
  have hOld : flagBits m c ≠ none ∨ 64 ≤ m.values.countP ModeKind.isFlag →
      assignFlag m c = m := by
    rintro (hThere | hFull)
    · obtain ⟨bit, hBit⟩ := Option.ne_none_iff_exists'.mp hThere
      simp [assignFlag, SortedMap.contains, hKind, hBit]
    · rw [assignFlag, dif_neg (by rw [← List.countP_eq_length_filter]; omega), ite_self]
  have hNew : ∀ hFree : m.values.countP ModeKind.isFlag < 64, flagBits m c = none →
      assignFlag m c = m.insert c (.flag ⟨_, hFree⟩) := by
    intro hFree hNone
    simp [assignFlag, SortedMap.contains, hKind, hNone, ← List.countP_eq_length_filter, hFree]
  refine ⟨fun letter => ?_, h.other, h.numbered.name (fun hThere => ?_) fun hFree hNone => ?_⟩
  · by_cases hFree : flagBits m c = none ∧ m.values.countP ModeKind.isFlag < 64
    · rw [hNew hFree.2 hFree.1, SortedMap.get?_insert, flagBits_insert, h.kinds letter]
      by_cases hLetter : letter = c <;> simp [hLetter, hKnown]
    · rw [hOld ((Classical.not_and_iff_not_or_not.mp hFree).imp_right Nat.not_lt.mp)]
      exact h.kinds letter
  · rw [hOld hThere]
    exact ⟨fun _ => rfl, rfl⟩
  · rw [hNew hFree hNone, SortedMap.countP_insert _ _ (isFlag_of_flagBits hNone)]
    exact ⟨flagBits_insert m c _, rfl⟩

/-- Letters are named one after the other, and those that have kinds beforehand keep them. -/
theorem foldl_assignFlag (h : Filed known [] m) (letters : List Char) :
    Filed known (letters.filter (known · = none)) (letters.foldl assignFlag m) := by
  induction letters using List.reverseRecOn with
  | nil => exact h
  | append_singleton letters c ih =>
      rw [List.foldl_append, List.filter_append, List.foldl_cons, List.foldl_nil]
      by_cases hKnown : known c = none
      · simpa [hKnown] using ih.name hKnown
      · rw [ih.assignFlag_of_known hKnown]
        simpa [hKnown] using ih

end Filed

/-- A group gives its kind to all its letters. -/
theorem get?_assign (kind : ModeKind) (letters : List Char) (m : SortedMap Char ModeKind)
    (letter : Char) :
    (assign kind letters m).get? letter =
      if letter ∈ letters then some kind else m.get? letter := by
  induction letters generalizing m with
  | nil => rfl
  | cons c rest ih =>
      have hRest := ih (m.insert c kind)
      rw [SortedMap.get?_insert] at hRest
      rw [assign, List.foldl_cons]
      refine hRest.trans ?_
      by_cases hIn : letter ∈ rest <;> by_cases hLetter : letter = c <;> simp [hIn, hLetter]

end ModeTable

namespace ModeGroups

/-- What the first three groups say of a letter: the last of them that has it counts. -/
def known (g : ModeGroups) (letter : Char) : Option ModeKind :=
  if letter ∈ g.whenSet.toList then some .parameter
  else if letter ∈ g.always.toList then some .doubleParameter
  else if letter ∈ g.lists.toList then some .list
  else none

/-- The letters of the last group that are in no other. -/
def flags (g : ModeGroups) : List Char := g.never.toList.filter (g.known · = none)

def kind? (g : ModeGroups) (letter : Char) : Option ModeKind :=
  (g.known letter).or ((LetterBits.ranked g.flags.eraseDups letter).map .flag)

/-- The groups that bare letters stand for. -/
def ofBare (letters : List Char) : ModeGroups where
  lists := String.ofList (letters.filter (['b', 'e', 'I'].contains ·))
  always := String.ofList (letters.filter (· == 'k'))
  whenSet := String.ofList (letters.filter (· == 'l'))
  never := String.ofList (letters.filter (!ModeTable.knownBare.contains ·))

theorem isFlag_of_known {g : ModeGroups} {letter : Char} {kind : ModeKind}
    (h : kind ∈ g.known letter) : kind.isFlag = false := by
  unfold known at h
  split_ifs at h <;> cases h <;> rfl

end ModeGroups

namespace ModeTable

/-- The table of four groups: what comes later in the announcement counts first, and the flags are
ranked. -/
theorem get?_ofGroups (g : ModeGroups) (letter : Char) :
    (ofGroups g).get? letter = g.kind? letter := by
  have hStart : Filed g.known [] (assign .parameter g.whenSet.toList
      (assign .doubleParameter g.always.toList (assign .list g.lists.toList SortedMap.empty))) :=
    .start (fun c => by simp only [get?_assign, ModeGroups.known, SortedMap.get?_empty])
      fun c kind => ModeGroups.isFlag_of_known
  exact (hStart.foldl_assignFlag g.never.toList).get? letter

/-- The kind that a bare letter has whatever else is announced. -/
def bareKind? (c : Char) : Option ModeKind :=
  if c = 'l' then some .parameter
  else if c = 'k' then some .doubleParameter
  else if c ∈ ['b', 'e', 'I'] then some .list
  else none

/-- A bare letter has the kind that everyone knows it by, or is a flag. -/
theorem assignBare_eq (m : SortedMap Char ModeKind) (c : Char) :
    assignBare m c = (bareKind? c).elim (assignFlag m c) (m.insert c) := by
  unfold assignBare
  split
  case h_6 => simp_all [bareKind?]
  all_goals rfl

theorem isFlag_of_bareKind? {c : Char} {kind : ModeKind} (h : kind ∈ bareKind? c) :
    kind.isFlag = false := by
  unfold bareKind? at h
  split_ifs at h <;> cases h <;> rfl

/-- Bare letters make up groups of their own. -/
theorem known_ofBare (letters : List Char) (letter : Char) :
    (ModeGroups.ofBare letters).known letter =
      if letter ∈ letters then bareKind? letter else none := by
  by_cases hIn : letter ∈ letters <;> simp [ModeGroups.known, ModeGroups.ofBare, bareKind?, hIn]

theorem bareKind?_eq_none_iff {c : Char} : bareKind? c = none ↔ c ∉ knownBare := by
  unfold bareKind? knownBare
  split_ifs <;> simp_all

theorem flags_ofBare (letters : List Char) :
    (ModeGroups.ofBare letters).flags = letters.filter (bareKind? · = none) := by
  have hNever : (ModeGroups.ofBare letters).never.toList =
      letters.filter (!knownBare.contains ·) := String.toList_ofList
  rw [ModeGroups.flags, hNever, List.filter_filter]
  refine List.filter_congr fun c hc => ?_
  simp [known_ofBare, hc, bareKind?_eq_none_iff]

/-- Bare letters are filed like the groups that they stand for. -/
theorem filed_foldl_assignBare (letters : List Char) :
    Filed (ModeGroups.ofBare letters).known (ModeGroups.ofBare letters).flags
      (letters.foldl assignBare SortedMap.empty) := by
  induction letters using List.reverseRecOn with
  | nil => exact .start (fun _ => rfl) fun c kind hKind => by cases hKind
  | append_singleton letters c ih =>
      have hKnown : (ModeGroups.ofBare (letters ++ [c])).known = fun letter =>
          if letter = c then bareKind? c else (ModeGroups.ofBare letters).known letter := by
        funext letter
        by_cases hLetter : letter = c <;> simp [known_ofBare, hLetter]
      rw [List.foldl_append, List.foldl_cons, List.foldl_nil, assignBare_eq, hKnown, flags_ofBare,
        List.filter_append]
      rw [flags_ofBare] at ih
      cases hKind : bareKind? c with
      | some kind =>
          have hOrder : c ∉ letters.filter (bareKind? · = none) := by simp [hKind]
          simpa [hKind] using ih.insert hOrder (isFlag_of_bareKind? hKind)
      | none =>
          have hNone : (ModeGroups.ofBare letters).known c = none := by
            simp [known_ofBare, hKind]
          have hSame : (fun letter => if letter = c then none
              else (ModeGroups.ofBare letters).known letter) =
                (ModeGroups.ofBare letters).known := by
            funext letter
            by_cases hLetter : letter = c <;> simp [hLetter, hNone]
          rw [hSame]
          simpa [hKind] using ih.name hNone

/-- Where only letters are announced, each is what its group makes of it, the statuses apart. -/
theorem get?_ofBareLetters (letters : String) (statuses : StatusModes) (letter : Char) :
    (ofBareLetters letters statuses).get? letter =
      (ModeGroups.ofBare (letters.toList.filter
        (!statuses.letters.toList.contains ·))).kind? letter :=
  (filed_foldl_assignBare _).get? letter

/-- The last place of a letter among statuses, and the glyph that it has there. -/
def LastAt (statuses : List (Char × Char)) (letter glyph : Char) (i : Nat) : Prop :=
  statuses[i]? = some (letter, glyph) ∧ ∀ j status, i < j → statuses[j]? = some status →
    status.1 ≠ letter

theorem lastAt_cons_zero {status : Char × Char} {rest : List (Char × Char)} {letter glyph : Char} :
    LastAt (status :: rest) letter glyph 0 ↔
      status = (letter, glyph) ∧ letter ∉ rest.map Prod.fst := by
  have hLater : (∀ j s, 0 < j → (status :: rest)[j]? = some s → s.1 ≠ letter) ↔
      letter ∉ rest.map Prod.fst := by
    rw [List.mem_map]
    constructor
    · rintro hAll ⟨s, hs, hLetter⟩
      obtain ⟨j, hj⟩ := List.mem_iff_getElem?.mp hs
      exact hAll (j + 1) s (Nat.succ_pos j) hj hLetter
    · rintro hNot (_ | j) s hj hs hLetter
      · omega
      · exact hNot ⟨s, List.mem_of_getElem? hs, hLetter⟩
  exact and_congr (by simp) hLater

theorem lastAt_cons_succ {status : Char × Char} {rest : List (Char × Char)} {letter glyph : Char}
    {i : Nat} : LastAt (status :: rest) letter glyph (i + 1) ↔ LastAt rest letter glyph i := by
  constructor
  · rintro ⟨hHere, hLater⟩
    exact ⟨hHere, fun j s hj hs => hLater (j + 1) s (by omega) hs⟩
  · rintro ⟨hHere, hLater⟩
    refine ⟨hHere, fun j s hj hs => ?_⟩
    cases j with
    | zero => omega
    | succ j => exact hLater j s (by omega) hs

/-- A status that occurs has a last place. -/
theorem exists_lastAt {statuses : List (Char × Char)} {letter : Char}
    (h : letter ∈ statuses.map Prod.fst) : ∃ glyph i, LastAt statuses letter glyph i := by
  induction statuses with
  | nil => cases h
  | cons status rest ih =>
      by_cases hLater : letter ∈ rest.map Prod.fst
      · obtain ⟨glyph, i, hLast⟩ := ih hLater
        exact ⟨glyph, i + 1, lastAt_cons_succ.mpr hLast⟩
      · obtain rfl := (List.mem_cons.mp h).resolve_right hLater
        exact ⟨status.2, 0, lastAt_cons_zero.mpr ⟨rfl, hLater⟩⟩

/-- Letters that are no statuses keep their kinds. -/
theorem get?_assignStatuses_of_not_mem {statuses : List (Char × Char)} {letter : Char}
    (h : letter ∉ statuses.map Prod.fst) (m : SortedMap Char ModeKind) :
    (assignStatuses statuses m).get? letter = m.get? letter := by
  induction statuses generalizing m with
  | nil => rfl
  | cons status rest ih =>
      rw [List.map_cons, List.mem_cons, not_or] at h
      rw [assignStatuses, ih h.2, SortedMap.get?_insert_of_ne m h.1]

/-- A status counts by its last place, with the number of statuses after it for its bit. -/
theorem get?_assignStatuses_of_lastAt {statuses : List (Char × Char)}
    (hLength : statuses.length ≤ 64) {letter glyph : Char} {i : Nat}
    (h : LastAt statuses letter glyph i) (m : SortedMap Char ModeKind) :
    ∃ bit : Fin 64, bit.val = statuses.length - 1 - i ∧
      (assignStatuses statuses m).get? letter = some (.status bit glyph) := by
  induction statuses generalizing m i with
  | nil => cases h.1
  | cons status rest ih =>
      rw [List.length_cons] at hLength
      cases i with
      | succ i =>
          obtain ⟨bit, hBit, hKind⟩ := ih (by omega) (lastAt_cons_succ.mp h) _
          refine ⟨bit, ?_, hKind⟩
          rw [hBit, List.length_cons]
          omega
      | zero =>
          obtain ⟨rfl, hLater⟩ := lastAt_cons_zero.mp h
          refine ⟨Fin.ofNat 64 rest.length, Nat.mod_eq_of_lt (by omega), ?_⟩
          rw [assignStatuses, get?_assignStatuses_of_not_mem hLater, SortedMap.get?_insert_self]

/-- Past the statuses a table is that of the channel letters. -/
theorem kind?_complete_of_not_mem (channel : SortedMap Char ModeKind)
    {statuses : List (Char × Char)} (userModes : String) {letter : Char}
    (h : letter ∉ (statuses.take 64).map Prod.fst) :
    (complete channel statuses userModes).kind? letter = channel.get? letter :=
  get?_assignStatuses_of_not_mem h channel

/-- Nothing but a place among the statuses makes a letter a status. -/
theorem kind?_complete_eq_status_iff {channel : SortedMap Char ModeKind} (hNone : NoStatus channel)
    (statuses : List (Char × Char)) (userModes : String) {letter glyph : Char} {bit : Fin 64} :
    (complete channel statuses userModes).kind? letter = some (.status bit glyph) ↔
      ∃ i, LastAt (statuses.take 64) letter glyph i ∧
        bit.val = (statuses.take 64).length - 1 - i := by
  have hLength : (statuses.take 64).length ≤ 64 := List.length_take_le 64 statuses
  constructor
  · intro hKind
    by_cases hIn : letter ∈ (statuses.take 64).map Prod.fst
    · obtain ⟨glyph', i, hLast⟩ := exists_lastAt hIn
      obtain ⟨bit', hBit', hKind'⟩ := get?_assignStatuses_of_lastAt hLength hLast channel
      cases hKind.symm.trans hKind'
      exact ⟨i, hLast, hBit'⟩
    · have hOld := hNone letter
      rw [kind?_complete_of_not_mem channel userModes hIn] at hKind
      simp [statusBits, hKind] at hOld
  · rintro ⟨i, hLast, hBit⟩
    obtain ⟨bit', hBit', hKind⟩ := get?_assignStatuses_of_lastAt hLength hLast channel
    rw [Fin.ext (hBit.trans hBit'.symm)]
    exact hKind

/-- A user mode letter is given the next free bit, once. -/
def numberUser (m : SortedMap Char (Fin 64)) (c : Char) : SortedMap Char (Fin 64) :=
  if h : m.size < 64 then m.insertIfNew c ⟨m.size, h⟩ else m

/-- User modes are numbered as they are named. -/
theorem numbered_numberUser {named : List Char} {m : SortedMap Char (Fin 64)}
    (h : LetterBits.Numbered named m.get? m.size) (c : Char) :
    LetterBits.Numbered (named ++ [c]) (numberUser m c).get? (numberUser m c).size := by
  refine h.name (fun hOld => ?_) fun hFree hNone => ?_
  · have hSame : numberUser m c = m := by
      unfold numberUser
      rcases hOld with hThere | hFull
      · simp [SortedMap.insertIfNew, SortedMap.contains, Option.isSome_iff_ne_none, hThere]
      · rw [dif_neg (by omega)]
    rw [hSame]
    exact ⟨fun _ => rfl, rfl⟩
  · have hNew : numberUser m c = m.insert c ⟨m.size, hFree⟩ := by
      simp [numberUser, SortedMap.insertIfNew, SortedMap.contains, hFree, hNone]
    rw [hNew]
    refine ⟨fun letter => SortedMap.get?_insert m c letter _, ?_⟩
    have hCount := SortedMap.countP_insert (fun _ => true) (m := m) (k := c) ⟨m.size, hFree⟩
      (by simp [hNone])
    simpa [SortedMap.values, SortedMap.size] using hCount

/-- The bit of a user mode is the rank of its letter, and what is no letter has none. -/
theorem get?_assignUser (letters : List Char) (letter : Char) :
    (assignUser letters).get? letter =
      LetterBits.ranked (letters.filter Char.isAlpha).eraseDups letter := by
  have hNumbered : ∀ named : List Char, LetterBits.Numbered named
      (named.foldl numberUser SortedMap.empty).get?
      (named.foldl numberUser SortedMap.empty).size := by
    intro named
    induction named using List.reverseRecOn with
    | nil => exact LetterBits.numbered_nil fun _ => rfl
    | append_singleton named c ih =>
        rw [List.foldl_append]
        exact numbered_numberUser ih c
  exact (hNumbered _).bits_eq letter

/-- The groups of letters that a server announces: those of its `CHANMODES` token; without one,
those of its 004 line, member statuses left out; and those of RFC 1459 if that is empty. -/
def announcedGroups (support : Support) (info : ServerInfo) : ModeGroups :=
  match support.modeGroups? with
  | some groups => groups
  | none =>
    if info.channelModes = "" then standardGroups
    else .ofBare (info.channelModes.toList.filter
      (!support.statusModes.letters.toList.contains ·))

/-- What is announced of the letters is what a table says of them, and no two letters share a
bit. The table keeps the first 64 member statuses. -/
structure Obeys (support : Support) (info : ServerInfo) (t : ModeTable) : Prop where
  status : ∀ letter glyph bit, t.kind? letter = some (.status bit glyph) ↔
    ∃ i, LastAt (support.statusModes.pairs.take 64) letter glyph i ∧
      bit.val = (support.statusModes.pairs.take 64).length - 1 - i
  other : ∀ letter, letter ∉ (support.statusModes.pairs.take 64).map Prod.fst →
    t.kind? letter = ((announcedGroups support info).kind? letter).or
      (if support.exceptsLetter? = some letter ∨ support.invexLetter? = some letter
        then some .list else none)
  user : ∀ letter, t.userBit? letter = LetterBits.ranked
    ((if info.userModes = "" then standardUserModes else info.userModes).toList.filter
      Char.isAlpha).eraseDups letter
  flags_apart : LetterBits.Apart t.flagBit?
  statuses_apart : LetterBits.Apart t.statusBit?
  users_apart : LetterBits.Apart t.userBit?

theorem get?_foldl_insertIfNew_list (letters : List Char) (m : SortedMap Char ModeKind)
    (letter : Char) :
    (letters.foldl (fun m c => m.insertIfNew c .list) m).get? letter =
      (m.get? letter).or (if letter ∈ letters then some .list else none) := by
  induction letters generalizing m with
  | nil => simp
  | cons c rest ih =>
      rw [List.foldl_cons, ih, SortedMap.get?_insertIfNew]
      by_cases hLetter : letter = c
      · subst hLetter
        cases m.get? letter <;> simp
      · simp [hLetter]

/-- The kinds of all channel letters, with the exception lists last. -/
theorem get?_channelLetters (support : Support) (info : ServerInfo) (letter : Char) :
    (channelLetters support info).get? letter =
      ((announcedGroups support info).kind? letter).or
        (if support.exceptsLetter? = some letter ∨ support.invexLetter? = some letter
          then some .list else none) := by
  unfold channelLetters announcedGroups
  rw [get?_foldl_insertIfNew_list]
  congr 1
  · cases support.modeGroups? with
    | some groups => exact get?_ofGroups groups letter
    | none =>
        by_cases hLetters : info.channelModes = ""
        · simp only [if_pos hLetters, get?_ofGroups]
        · simp only [if_neg hLetters, get?_ofBareLetters]
  · simp [eq_comm]

/-- Whatever a server announces, and however often it names a letter, its table obeys it. -/
theorem ofServer_obeys (support : Support) (info : ServerInfo) :
    Obeys support info (ofServer support info) := by
  have hServer : (ofServer support info).OfAServer := .ofServer support info
  constructor
  case status =>
    intro letter glyph bit
    exact kind?_complete_eq_status_iff (noStatus_channelLetters support info) _ _
  case other =>
    intro letter hNot
    rw [← get?_channelLetters]
    exact kind?_complete_of_not_mem _ _ hNot
  case user => exact get?_assignUser _
  case flags_apart => exact hServer.flags_apart
  case statuses_apart => exact hServer.statuses_apart
  case users_apart =>
    intro letter letter' bit h h'
    rw [userBit?, ofServer, complete, get?_assignUser] at h h'
    exact LetterBits.ranked_apart _ h h'

/-- Letters that are named twice, in two groups or also as a status: `o` is a status at its last
place, `k` takes a parameter when set, and `m` is the second flag. -/
example :
    let support : Support := ⟨(SortedMap.empty.insert "PREFIX" (some "(ovo)@+&")).insert
      "CHANMODES" (some "bk,k,kl,iimo")⟩
    ['o', 'k', 'm'].map (ofServer support .empty).kind? =
      [some (.status 0 '&'), some .parameter, some (.flag 1)] := by
  decide +kernel

end ModeTable

end Irc
