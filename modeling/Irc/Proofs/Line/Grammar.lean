import Irc.Proofs.Line.Blame
/-! Which texts are lines. What may stand before the command of a line is described here by what is
left past it; a text that is not blank is a line exactly if a letter or digit comes next. Nothing else
is ever wrong with a text. -/
namespace Irc.RawLine

/-- What is left of a text past its tags, which run from an `@` at its beginning to the first space.
A text without a space has no tags. -/
def pastTags (t : List Char) : List Char :=
  if t.head? = some '@' ∧ ' ' ∈ t then t.dropWhile (!isSpace ·) else t

/-- What is left of a text past its source, which runs from a colon at its beginning to the next
space, unless there is nothing between them. -/
def pastSource : List Char → List Char
  | ':' :: c :: rest => if c = ' ' then ':' :: c :: rest else rest.dropWhile (!isSpace ·)
  | t => t

/-- Where the command of a line has to be. -/
def commandPlace (t : List Char) : List Char :=
  (pastSource ((pastTags t).dropWhile isGap)).dropWhile isGap

def HasCommand (t : List Char) : Prop :=
  ∃ c rest, commandPlace t = c :: rest ∧ c.isAlphanum = true

def withoutEnd (s : List Char) : List Char := Text.trimEnd Text.isLineBreak s

/-- Reading tags leaves what is past them, whether or not there are any. -/
theorem splitTags_snd (t : List Char) : (splitTags t).2 = pastTags t := by
  unfold splitTags pastTags
  split
  case h_1 rest =>
    have hAny : rest.any isSpace = true ↔ ' ' ∈ rest := by simp [isSpace]
    by_cases hSpace : ' ' ∈ rest
    · rw [if_pos (hAny.mpr hSpace), if_pos ⟨rfl, List.mem_cons_of_mem _ hSpace⟩]
      rfl
    · rw [if_neg (mt hAny.mp hSpace), if_neg]
      simp [hSpace]
  case h_2 hMark =>
    rw [if_neg]
    rintro ⟨hHead, _⟩
    obtain ⟨rest, rfl⟩ := List.head?_eq_some_iff.mp hHead
    exact hMark rest rfl

/-- Reading a source leaves what is past it, whether or not there is one. -/
theorem splitSource_snd (t : List Char) : (splitSource t).2 = pastSource t := by
  cases t with
  | nil => rfl
  | cons mark rest =>
      by_cases hMark : mark = ':'
      · subst hMark
        cases rest with
        | nil => rfl
        | cons c rest =>
            by_cases hSpace : c = ' '
            · subst hSpace
              rfl
            · have hc : (!isSpace c) = true := by simpa [isSpace] using hSpace
              rw [splitSource, pastSource, if_neg hSpace, List.takeWhile_cons_of_pos (p := (!isSpace ·)) hc,
                List.dropWhile_cons_of_pos (p := (!isSpace ·)) hc]
              rfl
      · rw [splitSource_of_ne hMark, pastSource]
        rintro c rest ⟨⟩
        exact hMark rfl

theorem afterSource_eq (t : List Char) : afterSource t = commandPlace t := by
  rw [afterSource, splitSource_snd, afterTags, splitTags_snd]
  rfl

/-- There is a command exactly if the word in its place has a character. -/
theorem hasCommand_iff (t : List Char) :
    HasCommand t ↔ ¬((afterSource t).takeWhile Char.isAlphanum).isEmpty = true := by
  rw [HasCommand, ← afterSource_eq]
  cases hPlace : afterSource t with
  | nil => simp
  | cons c rest =>
      by_cases hc : c.isAlphanum = true <;> simp [hc]

/-- Splitting fails for want of a command and for nothing else. -/
theorem split_cases (t : List Char) :
    (HasCommand t ∧ ∃ l, split t = .ok l) ∨ (¬HasCommand t ∧ split t = .error .missingCommand) := by
  rw [split_eq, hasCommand_iff]
  by_cases hNone : ((afterSource t).takeWhile Char.isAlphanum).isEmpty = true
  · rw [if_pos hNone]
    exact .inr ⟨not_not_intro hNone, rfl⟩
  · rw [if_neg hNone]
    exact .inl ⟨hNone, _, rfl⟩

def AllBlank (t : List Char) : Prop := ∀ c ∈ t, Text.isBlank c = true

/-- A text is blank, or it is a line, or it lacks a command; nothing else can happen. -/
theorem read_cases (s : List Char) :
    (AllBlank (withoutEnd s) ∧ read s = .error .empty) ∨
    (¬AllBlank (withoutEnd s) ∧ HasCommand (withoutEnd s) ∧ ∃ l, read s = .ok l) ∨
    (¬AllBlank (withoutEnd s) ∧ ¬HasCommand (withoutEnd s) ∧ read s = .error .missingCommand) := by
  by_cases hAll : (withoutEnd s).all Text.isBlank = true
  · exact .inl ⟨List.all_eq_true.mp hAll, if_pos hAll⟩
  · have hRead : read s = split (withoutEnd s) := if_neg hAll
    have hThere : ¬AllBlank (withoutEnd s) := mt List.all_eq_true.mpr hAll
    rw [hRead]
    exact .inr ((split_cases _).imp (And.intro hThere) (And.intro hThere))

/-- What comes of reading a text tells which of the three cases it is. -/
theorem read_iff (s : List Char) :
    (read s = .error .empty ↔ AllBlank (withoutEnd s)) ∧
    ((∃ l, read s = .ok l) ↔ ¬AllBlank (withoutEnd s) ∧ HasCommand (withoutEnd s)) ∧
    (read s = .error .missingCommand ↔ ¬AllBlank (withoutEnd s) ∧ ¬HasCommand (withoutEnd s)) := by
  rcases read_cases s with ⟨hBlank, hRead⟩ | ⟨hThere, hCommand, l, hRead⟩ |
    ⟨hThere, hCommand, hRead⟩
  · rw [hRead]
    exact ⟨iff_of_true rfl hBlank, iff_of_false nofun fun h => h.1 hBlank,
      iff_of_false nofun fun h => h.1 hBlank⟩
  · rw [hRead]
    exact ⟨iff_of_false nofun hThere, iff_of_true ⟨l, rfl⟩ ⟨hThere, hCommand⟩,
      iff_of_false nofun fun h => h.2 hCommand⟩
  · rw [hRead]
    exact ⟨iff_of_false nofun hThere, iff_of_false nofun fun h => hCommand h.2,
      iff_of_true rfl ⟨hThere, hCommand⟩⟩

/-- A text, apart from line breaks at its end, is empty if it is blank. Any other is read exactly if
a letter or digit stands where the command has to be, and lacks a command otherwise. Read part by
part, the loop over its parameters comes to an end and no other part is blamed. -/
theorem read_accepts_iff (s : List Char) :
    (read s = .error .empty ↔ AllBlank (withoutEnd s)) ∧
    ((∃ l, read s = .ok l) ↔ ¬AllBlank (withoutEnd s) ∧ HasCommand (withoutEnd s)) ∧
    (read s = .error .missingCommand ↔ ¬AllBlank (withoutEnd s) ∧ ¬HasCommand (withoutEnd s)) ∧
    LineReader.attempt s = some (LineReader.Verdict.ofRead (read s)) ∧
    (∀ position context, LineReader.attempt s ≠ some (.inContext position context)) ∧
    ∀ rest, ∃ left, LineReader.turns (rest.length + 1) rest = some (paramsOf rest, left) := by
  obtain ⟨hEmpty, hLine, hMissing⟩ := read_iff s
  have hAttempt := LineReader.attempt_eq s
  refine ⟨hEmpty, hLine, hMissing, hAttempt, fun position context hBlame => ?_, fun rest => ?_⟩
  case refine_1 =>
    rw [hAttempt] at hBlame
    cases hRead : read s <;> rw [hRead] at hBlame <;> cases hBlame
  case refine_2 =>
    exact LineReader.turns_of_length_lt (Nat.lt_succ_self rest.length)

example : ["@", ":", "@tags", "@tags ", ": PING", "@a :b\t"].map (read ·.toList) =
    List.replicate 6 (.error .missingCommand) := by
  decide +kernel

end Irc.RawLine
