import Irc.Line.Raw
import Irc.Proofs.CaseFolding
import Mathlib.Data.List.Basic
import Mathlib.Data.List.TakeWhile
/-! Reading a line undoes writing it, however many spaces stand between the parts and whatever
line breaks at the end. The parts that can be written so are exactly those that are read. -/
namespace Irc

theorem Text.toNat_lt_of_isAlphanum {c : Char} (h : c.isAlphanum = true) : c.toNat < 128 := by
  rcases (Bool.or_eq_true _ _).mp h with hAlpha | hDigit
  · rcases (Bool.or_eq_true _ _).mp hAlpha with hUpper | hLower
    · have hLe : c.toNat ≤ 'Z'.toNat := (of_decide_eq_true hUpper).2
      exact Nat.lt_of_le_of_lt hLe (by decide)
    · have hLe : c.toNat ≤ 'z'.toNat := of_decide_eq_true ((Bool.and_eq_true _ _).mp hLower).2
      exact Nat.lt_of_le_of_lt hLe (by decide)
  · have hLe : c.toNat ≤ '9'.toNat := of_decide_eq_true ((Bool.and_eq_true _ _).mp hDigit).2
    exact Nat.lt_of_le_of_lt hLe (by decide)

/-- A letter or digit is neither a blank nor a mark of what stands before a command. -/
theorem RawLine.plain_of_isAlphanum {c : Char} (h : c.isAlphanum = true) :
    Text.isBlank c = false ∧ isGap c = false ∧ Text.isLineBreak c = false ∧ c ≠ '@' ∧ c ≠ ':' := by
  revert h
  induction c using CaseMapping.char_induction with
  | ascii n => revert n; decide +kernel
  | other c hOther =>
      intro h
      have hAscii := Text.toNat_lt_of_isAlphanum h
      omega

namespace RawLine

def inWord (c : Char) : Bool := !isSpace c && !Text.isLineBreak c

/-- What may stand before another parameter: it is not empty, has no space or line break in it and
does not begin like a trailing one. -/
structure IsMiddle (p : List Char) : Prop where
  nonempty : p ≠ []
  plain : p.head? ≠ some ':'
  word : ∀ c ∈ p, inWord c = true

/-- All parameters but the last are of one word, and the last one is of one line. -/
structure GoodParams (params : List (List Char)) : Prop where
  middle : ∀ p ∈ params.dropLast, IsMiddle p
  last : ∀ p ∈ params.getLast?, ∀ c ∈ p, Text.isLineBreak c = false

structure WellFormed (l : RawLine) : Prop where
  tags : ∀ t ∈ l.tags, ∀ c ∈ t, isSpace c = false
  source : ∀ s ∈ l.source, s ≠ [] ∧ ∀ c ∈ s, isSpace c = false
  command : l.command ≠ [] ∧ ∀ c ∈ l.command, c.isAlphanum = true
  params : GoodParams l.params

def spaces (n : Nat) : List Char := ' ' :: List.replicate n ' '

/-- The texts of an optional word after its mark, with the spaces that end it. -/
def WritesWord (mark : Char) : Option (List Char) → List Char → Prop
  | none, text => text = []
  | some w, text => ∃ n, text = mark :: (w ++ spaces n)

/-- The texts of some parameters, each after spaces and the last one after a colon. -/
inductive WritesParams : List (List Char) → List Char → Prop
  | nil : WritesParams [] []
  | last (n : Nat) (p : List Char) : WritesParams [p] (spaces n ++ ':' :: p)
  | cons (n : Nat) (p : List Char) {rest : List (List Char)} {text : List Char} :
      rest ≠ [] → WritesParams rest text → WritesParams (p :: rest) (spaces n ++ (p ++ text))

def Writes (l : RawLine) (text : List Char) : Prop :=
  ∃ tags source params, WritesWord '@' l.tags tags ∧ WritesWord ':' l.source source ∧
    WritesParams l.params params ∧ text = tags ++ (source ++ (l.command ++ params))

/-- The usual way to write parameters is one of those allowed. -/
theorem writesParams_write : ∀ params : List (List Char),
    WritesParams params (params.dropLast.flatMap (' ' :: ·) ++
      match params.getLast? with | some p => ' ' :: ':' :: p | none => [])
  | [] => WritesParams.nil
  | [p] => WritesParams.last 0 p
  | p :: q :: rest => by
    have hRest := writesParams_write (q :: rest)
    have hCons := WritesParams.cons 0 p (List.cons_ne_nil q rest) hRest
    simpa [spaces] using hCons

theorem writesWord_write (mark : Char) (word? : Option (List Char)) :
    WritesWord mark word? (match word? with | some w => mark :: w ++ [' '] | none => []) := by
  cases word? with
  | none => rfl
  | some w => exact ⟨0, rfl⟩

/-- The usual way to write a whole line is one of those allowed. -/
theorem writes_write (l : RawLine) : l.Writes l.write := by
  have hAppend : ∀ a b c d e : List Char, a ++ b ++ c ++ d ++ e = a ++ (b ++ (c ++ (d ++ e))) := by
    intro a b c d e
    simp only [List.append_assoc]
  exact ⟨_, _, _, writesWord_write '@' l.tags, writesWord_write ':' l.source,
    writesParams_write l.params, hAppend _ _ _ _ _⟩

theorem paramsAfterSpace_replicate (n : Nat) (s : List Char) :
    paramsAfterSpace (List.replicate n ' ' ++ s) = paramsAfterSpace s := by
  induction n with
  | zero => rfl
  | succ n ih => rw [List.replicate_succ, List.cons_append, paramsAfterSpace, ih]

/-- A word goes up to a space or a line break. -/
theorem inWord_iff {c : Char} : inWord c = true ↔ c ≠ ' ' ∧ Text.isLineBreak c = false := by
  simp [inWord, isSpace]

/-- A word goes on over every character that belongs to it. -/
theorem paramsInWord_cons {c : Char} (hc : inWord c = true) (s : List Char) :
    paramsInWord (c :: s) = consFirst c (paramsInWord s) := by
  obtain ⟨hSpace, hBreak⟩ := inWord_iff.mp hc
  rw [paramsInWord, hBreak]
  · rfl
  · exact hSpace

theorem paramsAfterSpace_cons {c : Char} (hc : inWord c = true) (hColon : c ≠ ':')
    (s : List Char) : paramsAfterSpace (c :: s) = consFirst c (paramsInWord s) := by
  obtain ⟨hSpace, hBreak⟩ := inWord_iff.mp hc
  rw [paramsAfterSpace, hBreak]
  · rfl
  · exact hSpace
  · exact hColon

/-- A word ends at its space, and reading goes on behind it. -/
theorem paramsInWord_append {p : List Char} (hp : ∀ c ∈ p, inWord c = true) (s : List Char) :
    paramsInWord (p ++ ' ' :: s) = p :: paramsAfterSpace s := by
  induction p with
  | nil => rw [List.nil_append, paramsInWord]
  | cons c rest ih =>
      have hRest := ih fun d hd => hp d (List.mem_cons_of_mem c hd)
      rw [List.cons_append, paramsInWord_cons (hp c (List.mem_cons_self ..)), hRest]
      rfl

/-- A middle parameter is read as it was written, and then the others. -/
theorem paramsAfterSpace_append {p : List Char} (hp : IsMiddle p) (s : List Char) :
    paramsAfterSpace (p ++ ' ' :: s) = p :: paramsAfterSpace s := by
  cases p with
  | nil => exact absurd rfl hp.nonempty
  | cons c rest =>
      have hColon : c ≠ ':' := fun hc => hp.plain (by rw [hc]; rfl)
      have hRest := paramsInWord_append (fun d hd => hp.word d (List.mem_cons_of_mem c hd)) s
      rw [List.cons_append, paramsAfterSpace_cons (hp.word c (List.mem_cons_self ..)) hColon, hRest]
      rfl

theorem paramsOf_spaces (n : Nat) (s : List Char) :
    paramsOf (spaces n ++ s) = paramsAfterSpace s := paramsAfterSpace_replicate n s

/-- All parameters but the last have to be middle parameters. -/
theorem GoodParams.of_cons {p : List Char} {rest : List (List Char)} (hRest : rest ≠ [])
    (h : GoodParams (p :: rest)) : IsMiddle p ∧ GoodParams rest := by
  refine ⟨h.middle p ?_, fun q hq => h.middle q ?_, fun q hq => h.last q ?_⟩
  · rw [List.dropLast_cons_of_ne_nil hRest]
    exact List.mem_cons_self ..
  · rw [List.dropLast_cons_of_ne_nil hRest]
    exact List.mem_cons_of_mem p hq
  · rw [List.getLast?_cons_of_ne_nil hRest]
    exact hq

/-- Parameters that are written begin with a space, if there are any. -/
theorem WritesParams.cases_text {params : List (List Char)} {text : List Char}
    (h : WritesParams params text) (hParams : params ≠ []) : ∃ rest, text = ' ' :: rest := by
  cases h with
  | nil => exact absurd rfl hParams
  | last n p => exact ⟨_, rfl⟩
  | cons n p hRest hText => exact ⟨_, rfl⟩

/-- Parameters are read back in whatever way they were written. -/
theorem WritesParams.paramsOf_eq {params : List (List Char)} {text : List Char}
    (h : WritesParams params text) (hGood : GoodParams params) : paramsOf text = params := by
  induction h with
  | nil => rfl
  | last n p =>
      have hLine : ∀ c ∈ p, (!Text.isLineBreak c) = true := by
        intro c hc
        rw [hGood.last p rfl c hc]
        rfl
      rw [paramsOf_spaces, paramsAfterSpace, List.takeWhile_eq_self_iff.mpr hLine]
  | @cons n p rest text hRest hText ih =>
      obtain ⟨hMiddle, hGoodRest⟩ := hGood.of_cons hRest
      obtain ⟨later, rfl⟩ := hText.cases_text hRest
      rw [paramsOf_spaces, paramsAfterSpace_append hMiddle]
      exact congrArg (p :: ·) (ih hGoodRest)

/-- A word without spaces is all that stands before the spaces after it. -/
theorem takeWhile_word {w : List Char} (hw : ∀ c ∈ w, isSpace c = false) (n : Nat)
    (s : List Char) :
    (w ++ (spaces n ++ s)).takeWhile (!isSpace ·) = w ∧
    (w ++ (spaces n ++ s)).dropWhile (!isSpace ·) = spaces n ++ s := by
  have hWord : ∀ c ∈ w, (!isSpace c) = true := by
    intro c hc
    rw [hw c hc]
    rfl
  rw [List.takeWhile_append_of_pos hWord, List.dropWhile_append_of_pos hWord]
  exact ⟨by rw [spaces, List.cons_append, List.takeWhile_cons]; simp [isSpace],
    by rw [spaces, List.cons_append, List.dropWhile_cons]; simp [isSpace]⟩

/-- Spaces are skipped, however many there are. -/
theorem dropWhile_spaces (n : Nat) {c : Char} (hc : isGap c = false) (s : List Char) :
    (spaces n ++ c :: s).dropWhile isGap = c :: s := by
  have hSpaces : ∀ d ∈ spaces n, isGap d = true := by
    intro d hd
    rcases List.mem_cons.mp hd with rfl | hd
    · rfl
    · rw [List.eq_of_mem_replicate hd]
      rfl
  rw [List.dropWhile_append_of_pos hSpaces]
  exact List.dropWhile_cons_of_neg (Bool.eq_false_iff.mp hc)

/-- Without the mark there are no tags, and nothing is taken. -/
theorem splitTags_of_ne {c : Char} (hMark : c ≠ '@') (s : List Char) :
    splitTags (c :: s) = (none, c :: s) := by
  unfold splitTags
  split
  case h_1 rest hHead => exact absurd (List.cons.inj hHead).1 hMark
  case h_2 => rfl

/-- Without the mark there is no source, and nothing is taken. -/
theorem splitSource_of_ne {c : Char} (hMark : c ≠ ':') (s : List Char) :
    splitSource (c :: s) = (none, c :: s) := by
  unfold splitSource
  split
  case h_1 rest hHead => exact absurd (List.cons.inj hHead).1 hMark
  case h_2 => rfl

/-- Tags are read back, or their absence is, as long as what follows cannot be taken for tags. -/
theorem splitTags_writes {tags? : Option (List Char)} {text : List Char}
    (h : WritesWord '@' tags? text) (hTags : ∀ t ∈ tags?, ∀ c ∈ t, isSpace c = false) {c : Char}
    (hGap : isGap c = false) (hMark : c ≠ '@') (s : List Char) :
    (splitTags (text ++ c :: s)).1 = tags? ∧
    (splitTags (text ++ c :: s)).2.dropWhile isGap = c :: s := by
  cases tags? with
  | none =>
      cases h
      rw [List.nil_append, splitTags_of_ne hMark]
      exact ⟨rfl, List.dropWhile_cons_of_neg (Bool.eq_false_iff.mp hGap)⟩
  | some t =>
      obtain ⟨n, rfl⟩ := h
      obtain ⟨hTake, hDrop⟩ := takeWhile_word (hTags t rfl) n (c :: s)
      have hAny : (t ++ (spaces n ++ c :: s)).any isSpace = true := by simp [spaces, isSpace]
      rw [List.cons_append, List.append_assoc, splitTags, if_pos hAny, hTake, hDrop]
      exact ⟨rfl, dropWhile_spaces n hGap s⟩

/-- A source is read back, or its absence, as long as what follows cannot be taken for one. -/
theorem splitSource_writes {source? : Option (List Char)} {text : List Char}
    (h : WritesWord ':' source? text)
    (hSource : ∀ t ∈ source?, t ≠ [] ∧ ∀ c ∈ t, isSpace c = false) {c : Char}
    (hGap : isGap c = false) (hMark : c ≠ ':') (s : List Char) :
    (splitSource (text ++ c :: s)).1 = source? ∧
    (splitSource (text ++ c :: s)).2.dropWhile isGap = c :: s := by
  cases source? with
  | none =>
      cases h
      rw [List.nil_append, splitSource_of_ne hMark]
      exact ⟨rfl, List.dropWhile_cons_of_neg (Bool.eq_false_iff.mp hGap)⟩
  | some t =>
      obtain ⟨n, rfl⟩ := h
      obtain ⟨hTake, hDrop⟩ := takeWhile_word (hSource t rfl).2 n (c :: s)
      have hSome : ¬t.isEmpty = true := by
        rw [List.isEmpty_iff]
        exact (hSource t rfl).1
      rw [List.cons_append, List.append_assoc, splitSource, hTake, hDrop, if_neg hSome]
      exact ⟨rfl, dropWhile_spaces n hGap s⟩

/-- What follows a command ends it. -/
theorem takeWhile_command {command : List Char} (hCommand : ∀ c ∈ command, c.isAlphanum = true)
    {params : List (List Char)} {text : List Char} (hText : WritesParams params text) :
    (command ++ text).takeWhile Char.isAlphanum = command ∧
    (command ++ text).dropWhile Char.isAlphanum = text := by
  rw [List.takeWhile_append_of_pos hCommand, List.dropWhile_append_of_pos hCommand]
  by_cases hParams : params = []
  · subst hParams
    cases hText
    exact ⟨List.append_nil command, rfl⟩
  · obtain ⟨rest, rfl⟩ := hText.cases_text hParams
    exact ⟨List.append_nil command, rfl⟩

/-- What is written after the tags begins neither with a blank nor like tags. -/
theorem WritesWord.starts {source? : Option (List Char)} {text : List Char}
    (h : WritesWord ':' source? text) {c : Char} (hGap : isGap c = false) (hMark : c ≠ '@')
    (s : List Char) : ∃ d rest, text ++ c :: s = d :: rest ∧ isGap d = false ∧ d ≠ '@' := by
  cases source? with
  | none =>
      cases h
      exact ⟨c, s, rfl, hGap, hMark⟩
  | some w =>
      obtain ⟨n, rfl⟩ := h
      exact ⟨':', _, rfl, by decide, by decide⟩

def afterTags (s : List Char) : List Char := (splitTags s).2.dropWhile isGap

def afterSource (s : List Char) : List Char := (splitSource (afterTags s)).2.dropWhile isGap

/-- Splitting a line in one expression: it fails exactly where no command stands behind tags and
source. -/
theorem split_eq (s : List Char) :
    split s =
      if ((afterSource s).takeWhile Char.isAlphanum).isEmpty then .error .missingCommand
      else .ok ⟨(splitTags s).1, (splitSource (afterTags s)).1,
        (afterSource s).takeWhile Char.isAlphanum,
        paramsOf ((afterSource s).dropWhile Char.isAlphanum)⟩ := rfl

/-- Whatever way a line was written in, splitting gives back its parts. -/
theorem split_writes {l : RawLine} (h : l.WellFormed) {text : List Char} (hText : l.Writes text) :
    split text = .ok l := by
  obtain ⟨tags?, source?, command, params⟩ := l
  obtain ⟨tagText, sourceText, paramText, hTags, hSource, hParams, rfl⟩ := hText
  obtain ⟨hNonempty, hLetters⟩ := h.command
  cases command with
  | nil => exact absurd rfl hNonempty
  | cons c rest =>
      obtain ⟨_, hGap, _, hAt, hColon⟩ := plain_of_isAlphanum (hLetters c (List.mem_cons_self ..))
      obtain ⟨d, later, hLater, hStart, hMark⟩ := hSource.starts hGap hAt (rest ++ paramText)
      obtain ⟨hTags?, hAfterTags⟩ := splitTags_writes hTags h.tags hStart hMark later
      obtain ⟨hSource?, hAfterSource⟩ :=
        splitSource_writes hSource h.source hGap hColon (rest ++ paramText)
      obtain ⟨hTake, hDrop⟩ := takeWhile_command hLetters hParams
      rw [List.cons_append, hLater, split_eq, afterSource, afterTags, hTags?, hAfterTags, ← hLater,
        hSource?, hAfterSource, ← List.cons_append, hTake, hDrop, hParams.paramsOf_eq h.params]
      rfl

/-- Line breaks at the end go, and no more than these. -/
theorem trimEnd_append {s ending : List Char} (hEnding : ∀ c ∈ ending, Text.isLineBreak c = true)
    (hs : ∀ c ∈ s.getLast?, Text.isLineBreak c = false) :
    Text.trimEnd Text.isLineBreak (s ++ ending) = s := by
  have hDropped : ∀ c ∈ ending.reverse, Text.isLineBreak c = true :=
    fun c hc => hEnding c (List.mem_reverse.mp hc)
  rw [← List.head?_reverse] at hs
  rw [Text.trimEnd, List.reverse_append, List.dropWhile_append_of_pos hDropped]
  cases hStart : s.reverse with
  | nil => exact (List.reverse_eq_nil_iff.mp hStart).symm
  | cons c rest =>
      rw [hStart] at hs
      rw [List.dropWhile_cons, hs c rfl, ← hStart]
      exact List.reverse_reverse s

/-- The text of parameters does not end in a line break. -/
theorem WritesParams.getLast? {params : List (List Char)} {text : List Char}
    (h : WritesParams params text) (hGood : GoodParams params) :
    ∀ c ∈ text.getLast?, Text.isLineBreak c = false := by
  induction h with
  | nil =>
      intro c hc
      cases hc
  | last n p =>
      intro c hc
      rw [List.getLast?_append_of_ne_nil _ (List.cons_ne_nil _ _)] at hc
      rcases List.mem_cons.mp (List.mem_of_getLast? hc) with rfl | hp
      · rfl
      · exact hGood.last p rfl c hp
  | @cons n p rest text hRest hText ih =>
      obtain ⟨later, rfl⟩ := hText.cases_text hRest
      rw [← List.append_assoc, List.getLast?_append_of_ne_nil _ (List.cons_ne_nil _ _)]
      exact ih (hGood.of_cons hRest).2

/-- The text of a line does not end in a line break, so trimming takes nothing from it. -/
theorem Writes.getLast? {l : RawLine} (h : l.WellFormed) {text : List Char}
    (hText : l.Writes text) : ∀ c ∈ text.getLast?, Text.isLineBreak c = false := by
  obtain ⟨tagText, sourceText, paramText, _, _, hParams, rfl⟩ := hText
  have hCommand : l.command ++ paramText ≠ [] := by simp [h.command.1]
  rw [← List.append_assoc, List.getLast?_append_of_ne_nil _ hCommand]
  intro c hc
  by_cases hNone : paramText = []
  · rw [hNone, List.append_nil] at hc
    exact (plain_of_isAlphanum (h.command.2 c (List.mem_of_getLast? hc))).2.2.1
  · rw [List.getLast?_append_of_ne_nil _ hNone] at hc
    exact hParams.getLast? h.params c hc

theorem read_writes {l : RawLine} (h : l.WellFormed) {text ending : List Char}
    (hText : l.Writes text) (hEnding : ∀ c ∈ ending, Text.isLineBreak c = true) :
    read (text ++ ending) = .ok l := by
  have hLine := trimEnd_append hEnding (hText.getLast? h)
  have hThere : ¬text.all Text.isBlank = true := by
    obtain ⟨tagText, sourceText, paramText, _, _, _, rfl⟩ := hText
    obtain ⟨c, hc⟩ := List.exists_mem_of_ne_nil l.command h.command.1
    intro hBlank
    have hLetter := (plain_of_isAlphanum (h.command.2 c hc)).1
    rw [List.all_eq_true.mp hBlank c (by simp [hc])] at hLetter
    cases hLetter
  rw [read, hLine]
  simp only [if_neg hThere]
  exact split_writes h hText

theorem goodParams_nil : GoodParams [] where
  middle p hp := by cases hp
  last p hp := by cases hp

theorem goodParams_singleton {p : List Char} (hp : ∀ c ∈ p, Text.isLineBreak c = false) :
    GoodParams [p] where
  middle q hq := by cases hq
  last q hq := by
    cases hq
    exact hp

theorem GoodParams.cons {p : List Char} {rest : List (List Char)} (hp : IsMiddle p)
    (h : GoodParams rest) : GoodParams (p :: rest) := by
  cases rest with
  | nil => exact goodParams_singleton fun c hc => (inWord_iff.mp (hp.word c hc)).2
  | cons q later =>
      refine ⟨fun r hr => ?_, fun r hr => h.last r ?_⟩
      · rcases List.mem_cons.mp hr with rfl | hr
        · exact hp
        · exact h.middle r hr
      · rw [List.getLast?_cons_cons] at hr
        exact hr

/-- What follows a space are good parameters. What follows the beginning of a parameter is the
rest of a word, and then good parameters. -/
theorem goodParams_after (s : List Char) :
    GoodParams (paramsAfterSpace s) ∧
    ∃ w rest, paramsInWord s = w :: rest ∧ (∀ c ∈ w, inWord c = true) ∧ GoodParams rest := by
  induction s with
  | nil => exact ⟨goodParams_nil, [], [], rfl, by simp, goodParams_nil⟩
  | cons c s ih =>
      obtain ⟨hAfter, w, rest, hWord, hIn, hRest⟩ := ih
      by_cases hSpace : c = ' '
      · subst hSpace
        exact ⟨hAfter, [], paramsAfterSpace s, rfl, by simp, hAfter⟩
      by_cases hBreak : Text.isLineBreak c = true
      · have hColon : c ≠ ':' := by
          rintro rfl
          cases hBreak
        have hNone : paramsAfterSpace (c :: s) = [] := by
          rw [paramsAfterSpace, if_pos hBreak]
          · exact hSpace
          · exact hColon
        have hEnd : paramsInWord (c :: s) = [[]] := by
          rw [paramsInWord, if_pos hBreak]
          exact hSpace
        rw [hNone, hEnd]
        exact ⟨goodParams_nil, [], [], rfl, by simp, goodParams_nil⟩
      · have hc : inWord c = true := inWord_iff.mpr ⟨hSpace, Bool.eq_false_iff.mpr hBreak⟩
        have hLonger : ∀ d ∈ c :: w, inWord d = true := by
          intro d hd
          rcases List.mem_cons.mp hd with rfl | hd
          · exact hc
          · exact hIn d hd
        refine ⟨?_, c :: w, rest, by rw [paramsInWord_cons hc, hWord]; rfl, hLonger, hRest⟩
        by_cases hColon : c = ':'
        · subst hColon
          refine goodParams_singleton fun d hd => ?_
          simpa using List.mem_takeWhile_imp hd
        · rw [paramsAfterSpace_cons hc hColon, hWord]
          exact hRest.cons ⟨List.cons_ne_nil c w, by simpa using hColon, hLonger⟩

theorem goodParams_paramsOf (s : List Char) : GoodParams (paramsOf s) := by
  unfold paramsOf
  split
  case h_1 rest => exact (goodParams_after rest).1
  case h_2 => exact goodParams_nil

theorem isSpace_of_mem_takeWhile {s : List Char} {c : Char}
    (h : c ∈ s.takeWhile (!isSpace ·)) : isSpace c = false := by
  simpa using List.mem_takeWhile_imp h

theorem splitTags_fst (s : List Char) :
    ∀ t ∈ (splitTags s).1, ∀ c ∈ t, isSpace c = false := by
  intro t ht
  unfold splitTags at ht
  split at ht
  case h_1 rest =>
    by_cases hSpace : rest.any isSpace = true
    · rw [if_pos hSpace] at ht
      cases ht
      exact fun c hc => isSpace_of_mem_takeWhile hc
    · rw [if_neg hSpace] at ht
      cases ht
  case h_2 => cases ht

theorem splitSource_fst (s : List Char) :
    ∀ t ∈ (splitSource s).1, t ≠ [] ∧ ∀ c ∈ t, isSpace c = false := by
  intro t ht
  unfold splitSource at ht
  split at ht
  case h_1 rest =>
    by_cases hNone : (rest.takeWhile (!isSpace ·)).isEmpty = true
    · rw [if_pos hNone] at ht
      cases ht
    · rw [if_neg hNone] at ht
      cases ht
      rw [List.isEmpty_iff] at hNone
      exact ⟨hNone, fun c hc => isSpace_of_mem_takeWhile hc⟩
  case h_2 => cases ht

/-- What is read can be written: its parts fulfil all conditions. -/
theorem wellFormed_of_split {s : List Char} {l : RawLine} (h : split s = .ok l) :
    l.WellFormed := by
  rw [split_eq] at h
  by_cases hNone : ((afterSource s).takeWhile Char.isAlphanum).isEmpty = true
  · rw [if_pos hNone] at h
    cases h
  · rw [if_neg hNone] at h
    cases h
    rw [List.isEmpty_iff] at hNone
    exact {
      tags := splitTags_fst s
      source := splitSource_fst (afterTags s)
      command := ⟨hNone, fun c hc => List.mem_takeWhile_imp hc⟩
      params := goodParams_paramsOf _ }

theorem wellFormed_of_read {s : List Char} {l : RawLine} (h : read s = .ok l) : l.WellFormed := by
  unfold read at h
  by_cases hBlank : (Text.trimEnd Text.isLineBreak s).all Text.isBlank = true
  · rw [if_pos hBlank] at h
    cases h
  · rw [if_neg hBlank] at h
    exact wellFormed_of_split h

/-- A line that can be written is read back as it was. -/
theorem read_write {l : RawLine} (h : l.WellFormed) : read l.write = .ok l := by
  have hRead := read_writes h (writes_write l) (List.forall_mem_nil _)
  rwa [List.append_nil] at hRead

/-- Reading and writing are inverse to each other on the lines that can be written, and no other
lines are read. -/
theorem read_write_inverse :
    (∀ l : RawLine, l.WellFormed → l.Writes l.write ∧
      ∀ text ending, l.Writes text → (∀ c ∈ ending, Text.isLineBreak c = true) →
        read (text ++ ending) = .ok l) ∧
    ∀ s l, read s = .ok l → l.WellFormed ∧ read l.write = .ok l := by
  constructor
  case left =>
    exact fun l h => ⟨writes_write l, fun text ending hText => read_writes h hText⟩
  case right =>
    intro s l hRead
    have h := wellFormed_of_read hRead
    exact ⟨h, read_write h⟩

/-- A line with further spaces and a terminator, and the same line as it is written. -/
theorem read_write_of_kick :
    let l : RawLine :=
      ⟨none, some "x!u@h".toList, "KICK".toList, ["#a".toList, "me".toList, ":)".toList]⟩
    l.WellFormed ∧ read (":x!u@h  KICK #a me   ::)".toList ++ ['\r', '\n']) = .ok l ∧
      read l.write = .ok l := by
  have hRead : read ":x!u@h KICK #a me ::)".toList =
      .ok ⟨none, some "x!u@h".toList, "KICK".toList, ["#a".toList, "me".toList, ":)".toList]⟩ := by
    decide +kernel
  obtain ⟨hWell, hWritten⟩ := read_write_inverse.2 _ _ hRead
  refine ⟨hWell, ?_, hWritten⟩
  have hText : Writes
      ⟨none, some "x!u@h".toList, "KICK".toList, ["#a".toList, "me".toList, ":)".toList]⟩
      ":x!u@h  KICK #a me   ::)".toList :=
    ⟨_, _, _, rfl, ⟨1, rfl⟩, .cons 0 _ (by simp) (.cons 0 _ (by simp) (.last 2 _)),
      by decide +kernel⟩
  exact (read_write_inverse.1 _ hWell).2 _ ['\r', '\n'] hText (by simp [Text.isLineBreak])

end RawLine

end Irc
