/-!
Strings in TOML, from the character after the opening delimiter to the closing one. Quotation
marks enclose strings with escapes, apostrophes strings without. Three of either enclose a
string of several lines, in which a CR LF counts as an LF.
-/
namespace Irc.Toml

structure Quoting where
  delimiter : Char
  /-- Whether a backslash begins an escape. -/
  escapes : Bool
  /-- Whether the string may have several lines. -/
  multiline : Bool
deriving Repr, DecidableEq

def quotationMark : Char := '\x22'

def apostrophe : Char := '\x27'

def isSpace (c : Char) : Bool := c == ' ' || c == '\t'

/-- Characters that may stand for themselves in a string or a comment. -/
def isPlain (c : Char) : Bool := c == '\t' || (0x20 ≤ c.toNat && c.toNat != 0x7F)

/-- What follows a line break, if the text begins with one. -/
def lineBreak? : List Char → Option (List Char)
  | '\n' :: rest => some rest
  | '\r' :: '\n' :: rest => some rest
  | _ => none

theorem length_of_lineBreak? {s r : List Char} (h : lineBreak? s = some r) :
    r.length < s.length := by
  unfold lineBreak? at h
  split at h <;> cases h <;> (simp only [List.length_cons]; omega)

/-- The value of a hexadecimal digit in either case. -/
def hexValue? (c : Char) : Option Nat :=
  if c.isDigit then some (c.toNat - '0'.toNat)
  else if 'a' ≤ c ∧ c ≤ 'f' then some (c.toNat - 'a'.toNat + 10)
  else if 'A' ≤ c ∧ c ≤ 'F' then some (c.toNat - 'A'.toNat + 10)
  else none

def hexNumber? (s : List Char) : Option Nat :=
  s.foldl (fun n? c => n?.bind fun n => (hexValue? c).map fun d => 16 * n + d) (some 0)

/-- The character whose number the first `n` characters give, and what follows them. -/
def numbered? (n : Nat) (s : List Char) : Option (Char × List Char) :=
  if n ≤ s.length then
    (hexNumber? (s.take n)).bind fun code =>
      if code.isValidChar then some (Char.ofNat code, s.drop n) else none
  else none

/-- The character of an escape, from the one after its backslash, and what follows it. -/
def escape? : List Char → Option (Char × List Char)
  | [] => none
  | c :: rest =>
    match c with
    | 'b' => some ('\x08', rest)
    | 't' => some ('\t', rest)
    | 'n' => some ('\n', rest)
    | 'f' => some ('\x0c', rest)
    | 'r' => some ('\r', rest)
    | '\x22' => some ('\x22', rest)
    | '\\' => some ('\\', rest)
    | 'u' => numbered? 4 rest
    | 'U' => numbered? 8 rest
    | _ => none

theorem length_of_numbered? {n : Nat} {s r : List Char} {c : Char}
    (h : numbered? n s = some (c, r)) : r.length ≤ s.length := by
  simp only [numbered?] at h
  split at h
  · simp only [Option.bind_eq_some_iff] at h
    obtain ⟨code, -, h⟩ := h
    split at h
    · cases h
      simp
    · cases h
  · cases h

theorem length_of_escape? {s r : List Char} {c : Char} (h : escape? s = some (c, r)) :
    r.length < s.length := by
  cases s with
  | nil => cases h
  | cons a rest =>
    simp only [escape?] at h
    simp only [List.length_cons]
    split at h <;> (try cases h) <;> first
      | exact Nat.lt_succ_self _
      | exact Nat.lt_succ_of_le (length_of_numbered? h)

def skipSpace : List Char → List Char
  | [] => []
  | '\r' :: '\n' :: rest => skipSpace rest
  | c :: rest => if isSpace c || c == '\n' then skipSpace rest else c :: rest

theorem length_skipSpace (s : List Char) : (skipSpace s).length ≤ s.length := by
  fun_induction skipSpace s <;> simp_all <;> omega

/-- A backslash at the end of a line: what follows it without the white space up to the next
other character. -/
def continuation? (s : List Char) : Option (List Char) :=
  (lineBreak? (s.dropWhile isSpace)).map skipSpace

theorem length_of_continuation? {s r : List Char} (h : continuation? s = some r) :
    r.length < s.length := by
  obtain ⟨t, ht, rfl⟩ := Option.map_eq_some_iff.mp h
  have h₁ := length_of_lineBreak? ht
  have h₂ := length_skipSpace t
  have h₃ := (List.dropWhile_sublist isSpace (l := s)).length_le
  omega

namespace Quoting

/-- Puts a character before the text that was read. -/
def withFirst (c : Char) (p : List Char × List Char) : List Char × List Char := (c :: p.1, p.2)

/-- The characters of a string up to its end, and what follows it. Up to two delimiters may
stand before the three that end a string of several lines. -/
def read? (q : Quoting) (s : List Char) : Option (List Char × List Char) :=
  match s with
  | [] => none
  | c :: rest =>
    if c = q.delimiter then
      let more := (rest.takeWhile (· == q.delimiter)).length
      if !q.multiline then some ([], rest)
      else if more < 2 then (q.read? rest).map (withFirst c)
      else if more ≤ 4 then some (List.replicate (more - 2) c, rest.drop more)
      else none
    else if c = '\\' ∧ q.escapes then
      match h : if q.multiline then continuation? rest else none with
      | some after =>
        have : after.length < rest.length := by
          split at h
          · exact length_of_continuation? h
          · cases h
        q.read? after
      | none =>
        match h : escape? rest with
        | some (e, after) =>
          have := length_of_escape? h
          (q.read? after).map (withFirst e)
        | none => none
    else if isPlain c then (q.read? rest).map (withFirst c)
    else if q.multiline then
      match h : lineBreak? (c :: rest) with
      | some after =>
        have := length_of_lineBreak? h
        (q.read? after).map (withFirst '\n')
      | none => none
    else none
termination_by s.length
decreasing_by all_goals simp_all; try omega

end Quoting

/-- A string of one line, and what follows it. -/
def lineString? : List Char → Option (List Char × List Char)
  | [] => none
  | c :: rest =>
    if c = quotationMark then Quoting.read? ⟨c, true, false⟩ rest
    else if c = apostrophe then Quoting.read? ⟨c, false, false⟩ rest
    else none

/-- A string, and what follows it. A line break right after the opening delimiter of a string of
several lines is not part of it. -/
def string? (s : List Char) : Option (List Char × List Char) :=
  match s with
  | c :: d :: e :: rest =>
    if (c = quotationMark ∨ c = apostrophe) ∧ c = d ∧ d = e then
      Quoting.read? ⟨c, c == quotationMark, true⟩ ((lineBreak? rest).getD rest)
    else lineString? s
  | _ => lineString? s

end Irc.Toml
