import Irc.Proofs.Text.Slicing
/-! Lines read part by part, with an account of what was being read wherever reading comes to a
halt. An optional part that cannot be read is given back and its account dropped; the last part in
the account of a required one says what is wrong with the line. Reading so is the same as `read`: the
only part that is ever blamed is the command, and the loop over the parameters always ends. -/
namespace Irc.LineReader

open RawLine

structure Note where
  /-- What was left to read. -/
  left : List Char
  /-- The part that was being read, if the note is about a whole part. -/
  part? : Option String

inductive Halt
  /-- The text is not of the kind that was expected; it may be of another one. -/
  | mismatch (notes : List Note)
  /-- The text is of no kind. -/
  | fatal (notes : List Note)
  /-- There is more to come. -/
  | unfinished
  /-- A loop has not ended. -/
  | endless

/-- Takes something from the beginning of a text. -/
abbrev Reader (α : Type) := List Char → Except Halt (α × List Char)

def mismatch {α : Type} : Reader α := fun s => .error (.mismatch [⟨s, none⟩])

def mark (c : Char) : Reader Unit := fun s =>
  if s.head? = some c then .ok ((), s.tail) else mismatch s

/-- All that stands before the next space, which there must be. -/
def toSpace : Reader (List Char) := fun s =>
  if s.any isSpace then .ok (s.takeWhile (!isSpace ·), s.dropWhile (!isSpace ·)) else mismatch s

/-- The characters that satisfy `p`, of which there must be one. -/
def atLeastOne (p : Char → Bool) : Reader (List Char) := fun s =>
  if (s.takeWhile p).isEmpty then mismatch s else .ok (s.takeWhile p, s.dropWhile p)

def marked {α : Type} (c : Char) (r : Reader α) : Reader α := fun s => do
  let (_, rest) ← mark c s
  r rest

/-- Something that may be missing. -/
def optional {α : Type} (r : Reader α) : Reader (Option α) := fun s =>
  match r s with
  | .ok (a, rest) => .ok (some a, rest)
  | .error (.mismatch _) => .ok (none, s)
  | .error halt => .error halt

/-- Adds to the account which part was being read, and from where. -/
def Halt.within (part : String) (s : List Char) : Halt → Halt
  | .mismatch notes => .mismatch (notes ++ [⟨s, some part⟩])
  | .fatal notes => .fatal (notes ++ [⟨s, some part⟩])
  | .unfinished => .unfinished
  | .endless => .endless

def within {α : Type} (part : String) (r : Reader α) : Reader α := fun s =>
  (r s).mapError (Halt.within part s)

def tags : Reader (List Char) := within "parsing IRCv3 message tags" (marked '@' toSpace)

def source : Reader (List Char) :=
  within "parsing message prefix" (marked ':' (atLeastOne (!isSpace ·)))

def command : Reader (List Char) := within "parsing IRC command" (atLeastOne Char.isAlphanum)

/-- What one turn of the loop comes to. -/
inductive Turn
  /-- There is no further parameter. -/
  | stop (rest : List Char)
  /-- There is one, and none after it. -/
  | last (param rest : List Char)
  /-- There is one, and the loop goes on with the rest. -/
  | next (param rest : List Char)

def turn (s : List Char) : Turn :=
  match s.dropWhile isSpace with
  | [] => .stop []
  | c :: text =>
    if (c :: text).length = s.length then .stop (c :: text)
    else if c = ':' then
      .last (text.takeWhile (!Text.isLineBreak ·)) (text.dropWhile (!Text.isLineBreak ·))
    else if ((c :: text).takeWhile inWord).isEmpty then .stop (c :: text)
    else .next ((c :: text).takeWhile inWord) ((c :: text).dropWhile inWord)

/-- The parameters of a number of turns and what is left; nothing if the loop has not ended. -/
def turns : Nat → List Char → Option (List (List Char) × List Char)
  | 0, _ => none
  | n + 1, s =>
    match turn s with
    | .stop rest => some ([], rest)
    | .last param rest => some ([param], rest)
    | .next param rest => (turns n rest).map fun r => (param :: r.1, r.2)

def parameters : Reader (List (List Char)) := fun s =>
  match turns (s.length + 1) s with
  | some r => .ok r
  | none => .error .endless

/-- Each turn takes the first of the parameters that there are, and what is left gets shorter. -/
theorem turn_spec (s : List Char) :
    match turn s with
    | .stop _ => paramsOf s = []
    | .last param _ => paramsOf s = [param]
    | .next param rest => paramsOf s = param :: paramsOf rest ∧ rest.length < s.length := by
  rw [turn, paramsOf_eq]
  cases hRest : s.dropWhile isSpace with
  | nil => exact ite_self _
  | cons c text =>
      have hLength := List.length_dropWhile_le isSpace s
      rw [hRest] at hLength
      by_cases hSame : (c :: text).length = s.length
      · simp only [if_pos hSame]
      by_cases hColon : c = ':'
      · subst hColon
        simp only [if_neg hSame, if_true, paramsAfterSpace]
      by_cases hc : inWord c = true
      · have hWord : ((c :: text).takeWhile inWord).isEmpty = false := by
          rw [List.takeWhile_cons_of_pos hc]
          rfl
        have hDrop := List.length_dropWhile_le inWord text
        simp only [if_neg hSame, if_neg hColon, hWord, Bool.false_eq_true, if_false]
        refine ⟨paramsAfterSpace_eq hc hColon, ?_⟩
        rw [List.dropWhile_cons_of_pos hc]
        rw [List.length_cons] at hLength
        omega
      · have hNone : ((c :: text).takeWhile inWord).isEmpty = true := by
          rw [List.takeWhile_cons_of_neg hc]
          rfl
        simp only [if_neg hSame, if_neg hColon, hNone, if_true]
        exact paramsAfterSpace_of_stop hc (ne_space_of_dropWhile hRest) hColon text

/-- Each turn takes up a character at least, so a number of turns above the length is enough. -/
theorem turns_of_length_lt {n : Nat} {s : List Char} (h : s.length < n) :
    ∃ rest, turns n s = some (paramsOf s, rest) := by
  induction n generalizing s with
  | zero => exact absurd h (Nat.not_lt_zero _)
  | succ n ih =>
      have hTurn := turn_spec s
      rw [turns]
      cases hWhat : turn s with
      | stop rest =>
          rw [hWhat] at hTurn
          exact ⟨rest, by rw [hTurn]⟩
      | last param rest =>
          rw [hWhat] at hTurn
          exact ⟨rest, by rw [hTurn]⟩
      | next param rest =>
          rw [hWhat] at hTurn
          obtain ⟨hParams, hShorter⟩ := hTurn
          obtain ⟨left, hRest⟩ := ih (s := rest) (by omega)
          exact ⟨left, by simp only [hRest, hParams, Option.map_some]⟩

/-- The parameters can always be read, and blame nothing. -/
theorem parameters_eq (s : List Char) : ∃ rest, parameters s = .ok (paramsOf s, rest) := by
  obtain ⟨rest, hTurns⟩ := turns_of_length_lt (Nat.lt_succ_self s.length)
  exact ⟨rest, by rw [parameters, hTurns]⟩

def line : Reader RawLine := fun s => do
  let (tags, s) ← within "parsing optional tags" (optional tags) s
  let (source, s) ← within "parsing optional prefix" (optional source) (s.dropWhile isGap)
  let (command, s) ← within "parsing required command" command (s.dropWhile isGap)
  let (params, s) ← parameters s
  return (⟨tags, source, command, params⟩, s)

inductive Verdict
  | line (l : RawLine)
  | error (e : LineError)
  /-- The text cannot be read from a position in its bytes on, where this part should be. -/
  | inContext (position : Nat) (context : String)

/-- Goes through an account: the place of the last note, and the last part that is named. -/
def blame (s : List Char) (notes : List Note) : Verdict :=
  let (position, part?) := notes.foldl
    (fun acc n => (Text.size s - Text.size n.left, n.part?.or acc.2)) (Text.size s, none)
  if part? = some "parsing required command" then .error .missingCommand
  else .inContext position (part?.getD "tokenizing line")

/-- Reads a line part by part; nothing if the loop has not ended. -/
def attempt (input : List Char) : Option Verdict :=
  let s := Text.trimEnd Text.isLineBreak input
  if s.all Text.isBlank then some (.error .empty)
  else
    match line s with
    | .ok (l, _) => some (.line l)
    | .error (.mismatch notes) => some (blame s notes)
    | .error (.fatal notes) => some (blame s notes)
    | .error .unfinished => some (.inContext (Text.size s) "incomplete input")
    | .error .endless => none

/-- What comes of a text that is read at once. -/
def Verdict.ofRead : Except LineError RawLine → Verdict
  | .ok l => .line l
  | .error e => .error e

theorem marked_cons {α : Type} (c : Char) (r : Reader α) (rest : List Char) :
    marked c r (c :: rest) = r rest := by
  have hMark : mark c (c :: rest) = .ok ((), rest) := if_pos rfl
  rw [marked, hMark]
  rfl

/-- A part with a mark is not even begun where the mark is missing. -/
theorem marked_of_ne {α : Type} {c : Char} {s : List Char} (h : s.head? ≠ some c) (r : Reader α) :
    marked c r s = mismatch s := by
  rw [marked, mark, if_neg h]
  rfl

/-- An optional part that can be read is taken. -/
theorem optional_of_ok {α : Type} {r : Reader α} {s rest : List Char} {a : α}
    (h : r s = .ok (a, rest)) (outer inner : String) :
    within outer (optional (within inner r)) s = .ok (some a, rest) := by
  simp only [within, optional, h, Except.mapError]

/-- What an optional part was expected to be is not held against the line. -/
theorem optional_of_mismatch {α : Type} {r : Reader α} {s : List Char} {notes : List Note}
    (h : r s = .error (.mismatch notes)) (outer inner : String) :
    within outer (optional (within inner r)) s = .ok (none, s) := by
  simp only [within, optional, h, Except.mapError, Halt.within]

/-- Tags are never blamed: a section that cannot be read is none. -/
theorem optional_tags_eq (s : List Char) :
    within "parsing optional tags" (optional tags) s = .ok (splitTags s) := by
  unfold splitTags
  split
  case h_1 rest =>
    by_cases hSpace : rest.any isSpace = true
    · rw [if_pos hSpace]
      exact optional_of_ok ((marked_cons '@' toSpace rest).trans (if_pos hSpace)) _ _
    · rw [if_neg hSpace]
      exact optional_of_mismatch ((marked_cons '@' toSpace rest).trans (if_neg hSpace)) _ _
  case h_2 hMark =>
    refine optional_of_mismatch (marked_of_ne ?_ toSpace) _ _
    rw [ne_eq, List.head?_eq_some_iff]
    rintro ⟨rest, rfl⟩
    exact hMark rest rfl

/-- A source is never blamed either. -/
theorem optional_source_eq (s : List Char) :
    within "parsing optional prefix" (optional source) s = .ok (splitSource s) := by
  unfold splitSource
  split
  case h_1 rest =>
    have hMarked := marked_cons ':' (atLeastOne (!isSpace ·)) rest
    by_cases hNone : (rest.takeWhile (!isSpace ·)).isEmpty = true
    · rw [if_pos hNone]
      exact optional_of_mismatch (hMarked.trans (if_pos hNone)) _ _
    · rw [if_neg hNone]
      exact optional_of_ok (hMarked.trans (if_neg hNone)) _ _
  case h_2 hMark =>
    refine optional_of_mismatch (marked_of_ne ?_ (atLeastOne (!isSpace ·))) _ _
    rw [ne_eq, List.head?_eq_some_iff]
    rintro ⟨rest, rfl⟩
    exact hMark rest rfl

/-- The account of a command that is missing. -/
theorem required_command_eq (s : List Char) :
    within "parsing required command" command s =
      if (s.takeWhile Char.isAlphanum).isEmpty then
        .error (.mismatch [⟨s, none⟩, ⟨s, some "parsing IRC command"⟩,
          ⟨s, some "parsing required command"⟩])
      else .ok (s.takeWhile Char.isAlphanum, s.dropWhile Char.isAlphanum) := by
  unfold within command within atLeastOne
  by_cases hNone : (s.takeWhile Char.isAlphanum).isEmpty = true
  · rw [if_pos hNone, if_pos hNone]
    rfl
  · rw [if_neg hNone, if_neg hNone]
    rfl

/-- The only part that is ever blamed is the command. -/
theorem line_eq (s : List Char) :
    (split s = .error .missingCommand ∧
      ∃ notes, line s = .error (.mismatch notes) ∧ blame s notes = .error .missingCommand) ∨
    ∃ l rest, split s = .ok l ∧ line s = .ok (l, rest) := by
  have hLine : line s = (do
      let (command, s') ← within "parsing required command" command (afterSource s)
      let (params, s'') ← parameters s'
      return (⟨(splitTags s).1, (splitSource (afterTags s)).1, command, params⟩, s'')) := by
    rw [line, optional_tags_eq]
    change (within "parsing optional prefix" (optional source) (afterTags s) >>= _) = _
    rw [optional_source_eq]
    rfl
  rw [split_eq, hLine, required_command_eq]
  by_cases hNone : ((afterSource s).takeWhile Char.isAlphanum).isEmpty = true
  · rw [if_pos hNone, if_pos hNone]
    exact .inl ⟨rfl, _, rfl, rfl⟩
  · obtain ⟨rest, hParams⟩ := parameters_eq ((afterSource s).dropWhile Char.isAlphanum)
    rw [if_neg hNone, if_neg hNone]
    refine .inr ⟨_, rest, rfl, ?_⟩
    change (parameters _ >>= _) = _
    rw [hParams]
    rfl

/-- Reading part by part comes to an end and to the same as reading at once. -/
theorem attempt_eq (s : List Char) : attempt s = some (Verdict.ofRead (RawLine.read s)) := by
  unfold attempt RawLine.read
  generalize Text.trimEnd Text.isLineBreak s = t
  by_cases hBlank : t.all Text.isBlank = true
  · simp only [if_pos hBlank]
    rfl
  · simp only [if_neg hBlank]
    rcases line_eq t with ⟨hSplit, notes, hLine, hBlame⟩ | ⟨l, rest, hSplit, hLine⟩
    · rw [hSplit, hLine]
      exact congrArg some hBlame
    · rw [hSplit, hLine]
      rfl

end Irc.LineReader
