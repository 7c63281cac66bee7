import Irc.Hostmask
import Irc.Proofs.Line.RoundTrip
import Irc.Server.Support
import Irc.Text.Utf8
import Mathlib.Data.List.TakeWhile
/-! Texts cut at positions in their bytes. Such a position may lie within a character or beyond the
end, and then there is nothing to cut. The positions at which a line, a source and the member status
modes are cut come from a search, and are never of this kind. -/
namespace Irc

namespace Text

def size (s : List Char) : Nat := (Utf8.encode s).length

/-- Cuts a text before a byte. -/
def cutAt? (n : Nat) : List Char → Option (List Char × List Char)
  | [] => if n = 0 then some ([], []) else none
  | c :: rest =>
    if n = 0 then some ([], c :: rest)
    else if c.utf8Size ≤ n then (cutAt? (n - c.utf8Size) rest).map fun p => (c :: p.1, p.2)
    else none

/-- The position of the first character that satisfies `p`. -/
def find? (p : Char → Bool) : List Char → Option Nat
  | [] => none
  | c :: rest => if p c then some 0 else (find? p rest).map (c.utf8Size + ·)

def byteAt? (n : Nat) (s : List Char) : Option UInt8 := (Utf8.encode s)[n]?

theorem size_append (a b : List Char) : size (a ++ b) = size a + size b := by
  simp [size, Utf8.encode]

theorem size_cons (c : Char) (s : List Char) : size (c :: s) = c.utf8Size + size s := by
  simp [size, Utf8.encode]

/-- A cut behind a whole number of characters succeeds, and loses nothing. -/
theorem cutAt?_size (a b : List Char) : cutAt? (size a) (a ++ b) = some (a, b) := by
  induction a with
  | nil => cases b <;> rfl
  | cons c rest ih =>
      have hPos := c.utf8Size_pos
      rw [size_cons, List.cons_append, cutAt?, if_neg (by omega), if_pos (by omega),
        Nat.add_sub_cancel_left, ih]
      rfl

theorem cutAt?_past (a b : List Char) (c : Char) :
    cutAt? (size a + c.utf8Size) (a ++ c :: b) = some (a ++ [c], b) := by
  have h := cutAt?_size (a ++ [c]) b
  rw [size_append, List.append_assoc] at h
  rwa [size_cons] at h

theorem cutAt?_utf8Size (c : Char) (s : List Char) :
    cutAt? c.utf8Size (c :: s) = some ([c], s) := by
  have h := cutAt?_size [c] s
  rwa [size_cons] at h

/-- A cut that is not at the front leaves a shorter text, which is why loops over cuts come to an
end. -/
theorem length_of_cutAt? {n : Nat} (hn : n ≠ 0) {s : List Char} {p : List Char × List Char}
    (h : cutAt? n s = some p) : p.2.length < s.length := by
  induction s generalizing n p with
  | nil =>
      rw [cutAt?, if_neg hn] at h
      cases h
  | cons c rest ih =>
      rw [cutAt?, if_neg hn] at h
      split at h
      · obtain ⟨q, hRest, rfl⟩ := Option.map_eq_some_iff.mp h
        by_cases hMore : n - c.utf8Size = 0
        · have hAll : cutAt? 0 rest = some ([], rest) := by cases rest <;> rfl
          rw [hMore, hAll] at hRest
          cases hRest
          exact Nat.lt_succ_self _
        · have hLess := ih hMore hRest
          exact Nat.lt_succ_of_lt hLess
      · cases h

/-- A search fails where there is nothing to find, and else gives the place of the first one. -/
theorem find?_cases (p : Char → Bool) (s : List Char) :
    (find? p s = none ∧ ∀ x ∈ s, p x = false) ∨
      ∃ a c b, s = a ++ c :: b ∧ find? p s = some (size a) ∧ (∀ x ∈ a, p x = false) ∧ p c = true := by
  induction s with
  | nil => exact .inl ⟨rfl, List.forall_mem_nil _⟩
  | cons x rest ih =>
      cases hx : p x with
      | true => exact .inr ⟨[], x, rest, rfl, by simp [find?, hx, size, Utf8.encode],
          List.forall_mem_nil _, hx⟩
      | false =>
          have hFind : find? p (x :: rest) = (find? p rest).map (x.utf8Size + ·) := by
            rw [find?, hx]
            rfl
          rw [hFind]
          obtain ⟨hNone, hAll⟩ | ⟨a, c, b, rfl, hSome, hBefore, hc⟩ := ih
          · exact .inl ⟨by rw [hNone]; rfl, List.forall_mem_cons.mpr ⟨hx, hAll⟩⟩
          · exact .inr ⟨x :: a, c, b, rfl, by rw [hSome, size_cons]; rfl,
              List.forall_mem_cons.mpr ⟨hx, hBefore⟩, hc⟩

/-- The first character that is `c` is where a text is cut. -/
theorem cut_of_found {c : Char} {a : List Char} (h : ∀ x ∈ a, (x == c) = false) (b : List Char) :
    cut c (a ++ c :: b) = some (a, b) :=
  cut_eq_some_iff.mpr ⟨rfl, fun hIn => absurd (h c hIn) (by simp)⟩

/-- There is no cut at a character that does not occur. -/
theorem cut_of_missing {c : Char} {s : List Char} (h : ∀ x ∈ s, (x == c) = false) :
    cut c s = none :=
  cut_eq_none_iff.mpr fun hIn => absurd (h c hIn) (by simp)

/-- The cut is in the second part if the first one has no mark. -/
theorem cut_append {c : Char} {a : List Char} (h : c ∉ a) (s : List Char) :
    cut c (a ++ s) = (cut c s).map fun p => (a ++ p.1, p.2) := by
  induction a with
  | nil => simp
  | cons x rest ih =>
      obtain ⟨hx, hRest⟩ := not_or.mp fun hIn => h (List.mem_cons.mpr hIn)
      rw [List.cons_append, cut, if_neg (Ne.symm hx), ih hRest, Option.map_map]
      rfl

/-- What is before a character that was found first, and what is from there on. -/
theorem takeWhile_of_found {p : Char → Bool} {a b : List Char} {c : Char}
    (hBefore : ∀ x ∈ a, p x = false) (hc : p c = true) :
    (a ++ c :: b).takeWhile (!p ·) = a ∧ (a ++ c :: b).dropWhile (!p ·) = c :: b := by
  have hPos : ∀ x ∈ a, (!p x) = true := fun x hIn => by rw [hBefore x hIn]; rfl
  have hNeg : ¬ (!p c) = true := by rw [hc]; decide
  rw [List.takeWhile_append_of_pos hPos, List.dropWhile_append_of_pos hPos,
    List.takeWhile_cons_of_neg (p := (!p ·)) hNeg, List.dropWhile_cons_of_neg (p := (!p ·)) hNeg,
    List.append_nil]
  exact ⟨rfl, rfl⟩

/-- The byte at the beginning of a character is the first one of its encoding. -/
theorem byteAt?_size (a b : List Char) (c : Char) :
    byteAt? (size a) (a ++ c :: b) = (String.utf8EncodeChar c)[0]? := by
  have hPos : 0 < (String.utf8EncodeChar c).length := by simp [Char.utf8Size_pos]
  have hEncode : Utf8.encode (a ++ c :: b) =
      Utf8.encode a ++ (String.utf8EncodeChar c ++ Utf8.encode b) := by
    simp [Utf8.encode]
  rw [byteAt?, size, hEncode, List.getElem?_append_right (Nat.le_refl _), Nat.sub_self,
    List.getElem?_append_left hPos]

/-- A text is cut without fail where the first character of some kind stands, or else at its
end. -/
theorem cutAt?_find? (p : Char → Bool) (s : List Char) :
    cutAt? ((find? p s).getD (size s)) s = some (s.takeWhile (!p ·), s.dropWhile (!p ·)) := by
  obtain ⟨hNone, hAll⟩ | ⟨a, c, b, rfl, hSome, hBefore, hc⟩ := find?_cases p s
  · have hCut := cutAt?_size s []
    rw [List.append_nil] at hCut
    rw [hNone, Option.getD_none, hCut, List.takeWhile_eq_self_iff.mpr, List.dropWhile_eq_nil_iff.mpr]
    · simpa using hAll
    · simpa using hAll
  · obtain ⟨hTake, hDrop⟩ := takeWhile_of_found hBefore hc
    rw [hSome, Option.getD_some, cutAt?_size, hTake, hDrop]

end Text

namespace Hostmask

def isMark (c : Char) : Bool := c == '!' || c == '@'

/-- `splitParts` by positions in the bytes of a text. -/
def splitParts? (raw : List Char) : Option (List Char × List Char × List Char) :=
  let s := raw.dropWhile (· == ':')
  match Text.find? isMark s with
  | none => some (s, [], [])
  | some i => do
    if (← Text.byteAt? i s) = '@'.toNat.toUInt8 then
      let (nick, _) ← Text.cutAt? i s
      let (_, host) ← Text.cutAt? (i + 1) s
      return (nick, [], host)
    else
      let (before, host) := (Text.cut '@' s).getD (s, [])
      let (nick, ident) := (Text.cut '!' before).getD (before, [])
      return (nick, ident, host)

/-- Splitting a source at byte positions never fails, and gives the same parts. -/
theorem splitParts?_eq (raw : List Char) : splitParts? raw = some (splitParts raw) := by
  have hMarks : (fun c => c != '!' && c != '@') = fun c => !isMark c := by
    funext c
    simp [isMark, bne]
  unfold splitParts? splitParts
  simp only [hMarks]
  generalize raw.dropWhile (· == ':') = s
  obtain ⟨hNone, hAll⟩ | ⟨a, c, b, rfl, hSome, hBefore, hc⟩ := Text.find?_cases isMark s
  · have hTake : s.takeWhile (!isMark ·) = s := List.takeWhile_eq_self_iff.mpr (by simpa using hAll)
    have hDrop : s.dropWhile (!isMark ·) = [] := List.dropWhile_eq_nil_iff.mpr (by simpa using hAll)
    rw [hNone, hTake, hDrop]
  · obtain ⟨hTake, hDrop⟩ := Text.takeWhile_of_found (b := b) hBefore hc
    have hMark : c = '!' ∨ c = '@' := by simpa [isMark] using hc
    rw [hSome, hTake, hDrop]
    rcases hMark with rfl | rfl
    · have hByte : Text.byteAt? (Text.size a) (a ++ '!' :: b) = some 33 := Text.byteAt?_size a b '!'
      have hNick : ∀ ident, Text.cut '!' (a ++ '!' :: ident) = some (a, ident) := fun ident =>
        Text.cut_eq_some_iff.mpr ⟨rfl, fun hIn => by simpa [isMark] using hBefore _ hIn⟩
      have hAt : '@' ∉ a ++ ['!'] := by
        simpa using fun hIn => by simpa [isMark] using hBefore _ hIn
      have hCut := Text.cut_append hAt b
      rw [List.append_assoc, List.singleton_append] at hCut
      have hNot : ¬ (33 : UInt8) = '@'.toNat.toUInt8 := by decide
      simp only [hByte, hCut, Option.bind_eq_bind, Option.bind_some, if_neg hNot]
      cases hFound : Text.cut '@' b with
      | none => simp [hNick, hFound]
      | some p => simp [hNick, hFound]
    · have hByte : Text.byteAt? (Text.size a) (a ++ '@' :: b) = some 64 := Text.byteAt?_size a b '@'
      have hHost : Text.cutAt? (Text.size a + 1) (a ++ '@' :: b) = some (a ++ ['@'], b) :=
        Text.cutAt?_past a b '@'
      simp only [hByte, Text.cutAt?_size, hHost]
      rfl

end Hostmask

namespace StatusModes

def readAt? (s : List Char) : Option (Option StatusModes) :=
  match Text.find? (· == '(') s with
  | none => some none
  | some opening => do
    let (_, inside) ← Text.cutAt? (opening + 1) s
    match Text.find? (· == ')') inside with
    | none => return none
    | some width =>
      let (front, _) ← Text.cutAt? (opening + 1 + width) s
      let (_, letters) ← Text.cutAt? (opening + 1) front
      let (_, glyphs) ← Text.cutAt? (opening + 1 + width + 1) s
      return if letters.length = glyphs.length then
        some ⟨String.ofList letters, String.ofList glyphs⟩
      else none

/-- The positions in an announcement of member statuses are never within a character. -/
theorem readAt?_eq (s : String) : readAt? s.toList = some (read? s) := by
  unfold readAt? read?
  generalize s.toList = text
  obtain ⟨hNone, hAll⟩ | ⟨a, c, inside, rfl, hSome, hBefore, hc⟩ :=
    Text.find?_cases (· == '(') text
  · rw [hNone, Text.cut_of_missing hAll]
    rfl
  cases beq_iff_eq.mp hc
  have hInside : ∀ rest, Text.cutAt? (Text.size a + 1) (a ++ '(' :: rest) = some (a ++ ['('], rest) :=
    fun rest => Text.cutAt?_past a rest '('
  simp only [hSome, Text.cut_of_found hBefore, hInside, Option.bind_eq_bind, Option.bind_some]
  obtain ⟨hNone, hAll⟩ | ⟨letters, c, glyphs, rfl, hSome, hBefore, hc⟩ :=
    Text.find?_cases (· == ')') inside
  · rw [hNone, Text.cut_of_missing hAll]
    rfl
  cases beq_iff_eq.mp hc
  have hSize : Text.size (a ++ '(' :: letters) = Text.size a + 1 + Text.size letters := by
    rw [Text.size_append, Text.size_cons, Nat.add_assoc]
    rfl
  have hFront := Text.cutAt?_size (a ++ '(' :: letters) (')' :: glyphs)
  have hGlyphs := Text.cutAt?_past (a ++ '(' :: letters) glyphs ')'
  rw [hSize, List.append_assoc, List.cons_append] at hFront hGlyphs
  replace hGlyphs : Text.cutAt? (Text.size a + 1 + Text.size letters + 1) _ = _ := hGlyphs
  simp only [hSome, Text.cut_of_found hBefore, hFront, hInside, hGlyphs, Option.bind_some]
  rfl

end StatusModes

namespace RawLine

/-- Each turn of the loop over the parameters leaves less to read. -/
theorem length_of_rest {s rest : List Char} {n : Nat} {p : List Char × List Char}
    (hRest : s.dropWhile isSpace = rest) (hn : n ≠ 0) (hCut : Text.cutAt? n rest = some p) :
    p.2.length < s.length := by
  rw [← hRest] at hCut
  exact Nat.lt_of_lt_of_le (Text.length_of_cutAt? hn hCut) (List.length_dropWhile_le isSpace s)

def paramsOf? (s : List Char) : Option (List (List Char)) :=
  match hRest : s.dropWhile isSpace with
  | [] => some []
  | c :: text =>
    if (c :: text).length = s.length then some []
    else if c = ':' then
      (Text.cutAt? ((Text.find? Text.isLineBreak text).getD (Text.size text)) text).map
        fun p => [p.1]
    else
      let stop := (Text.find? (!inWord ·) (c :: text)).getD (Text.size (c :: text))
      if hStop : stop = 0 then some []
      else
        match hCut : Text.cutAt? stop (c :: text) with
        | none => none
        | some p =>
          have := length_of_rest hRest hStop hCut
          (paramsOf? p.2).map (p.1 :: ·)
termination_by s.length

theorem paramsAfterSpace_dropWhile (s : List Char) :
    paramsAfterSpace (s.dropWhile isSpace) = paramsAfterSpace s := by
  induction s with
  | nil => rfl
  | cons c rest ih =>
      by_cases hc : c = ' '
      · subst hc
        rw [List.dropWhile_cons_of_pos rfl, ih, paramsAfterSpace]
      · rw [List.dropWhile_cons_of_neg (by simpa [isSpace] using hc)]

theorem paramsOf_cons {c : Char} (hc : c ≠ ' ') (rest : List Char) : paramsOf (c :: rest) = [] := by
  unfold paramsOf
  split
  case h_1 hSpace => exact absurd (List.cons.inj hSpace).1 hc
  case h_2 => rfl

/-- Parameters are read only where spaces are skipped first. -/
theorem paramsOf_eq (s : List Char) :
    paramsOf s = if (s.dropWhile isSpace).length = s.length then []
      else paramsAfterSpace (s.dropWhile isSpace) := by
  cases s with
  | nil => rfl
  | cons c rest =>
      by_cases hc : c = ' '
      · subst hc
        have hSkip := List.length_dropWhile_le isSpace rest
        rw [List.dropWhile_cons_of_pos rfl, if_neg (by rw [List.length_cons]; omega),
          paramsAfterSpace_dropWhile]
        rfl
      · rw [List.dropWhile_cons_of_neg (by simpa [isSpace] using hc), if_pos rfl, paramsOf_cons hc]

theorem ne_space_of_dropWhile {s text : List Char} {c : Char}
    (h : s.dropWhile isSpace = c :: text) : c ≠ ' ' := by
  rintro rfl
  have hHead := List.head?_dropWhile_not isSpace s
  rw [h] at hHead
  cases hHead

theorem isLineBreak_of_stop {c : Char} (hc : ¬ inWord c = true) (hSpace : c ≠ ' ') :
    Text.isLineBreak c = true := by
  by_contra hBreak
  exact hc (inWord_iff.mpr ⟨hSpace, Bool.not_eq_true _ ▸ hBreak⟩)

/-- Where no word begins after spaces, there is no parameter, unless there is a trailing one. -/
theorem paramsAfterSpace_of_stop {c : Char} (hc : ¬ inWord c = true) (hSpace : c ≠ ' ')
    (hColon : c ≠ ':') (text : List Char) : paramsAfterSpace (c :: text) = [] := by
  rw [paramsAfterSpace, if_pos (isLineBreak_of_stop hc hSpace)]
  · exact hSpace
  · exact hColon

/-- A word is followed by what has parameters of its own. -/
theorem paramsInWord_eq (s : List Char) :
    paramsInWord s = s.takeWhile inWord :: paramsOf (s.dropWhile inWord) := by
  induction s with
  | nil => rfl
  | cons c rest ih =>
      by_cases hc : inWord c = true
      · rw [paramsInWord_cons hc, ih, List.takeWhile_cons_of_pos hc, List.dropWhile_cons_of_pos hc]
        rfl
      · rw [List.takeWhile_cons_of_neg hc, List.dropWhile_cons_of_neg hc]
        by_cases hSpace : c = ' '
        · subst hSpace
          rfl
        · have hBreak : Text.isLineBreak c = true := isLineBreak_of_stop hc hSpace
          rw [paramsInWord, if_pos hBreak, paramsOf_cons hSpace]
          exact hSpace

/-- Where a word begins after spaces, it is the first parameter. -/
theorem paramsAfterSpace_eq {c : Char} {text : List Char} (hc : inWord c = true)
    (hColon : c ≠ ':') :
    paramsAfterSpace (c :: text) =
      (c :: text).takeWhile inWord :: paramsOf ((c :: text).dropWhile inWord) := by
  rw [paramsAfterSpace_cons hc hColon, ← paramsInWord_cons hc, paramsInWord_eq]

theorem cutAt?_word (s : List Char) :
    Text.cutAt? ((Text.find? (!inWord ·) s).getD (Text.size s)) s =
      some (s.takeWhile inWord, s.dropWhile inWord) := by
  have hCut := Text.cutAt?_find? (!inWord ·) s
  simpa only [Bool.not_not] using hCut

/-- The word in front of a text is empty if its first character ends it. -/
theorem stop_eq_zero_iff (c : Char) (text : List Char) :
    (Text.find? (!inWord ·) (c :: text)).getD (Text.size (c :: text)) = 0 ↔ ¬ inWord c = true := by
  have hPos := c.utf8Size_pos
  rw [Text.find?, Text.size_cons]
  by_cases hc : inWord c = true
  · rw [if_neg (by simpa using hc)]
    refine iff_of_false ?_ (not_not.mpr hc)
    cases Text.find? (!inWord ·) text with
    | none => exact Nat.ne_of_gt (Nat.add_pos_left hPos _)
    | some n => exact Nat.ne_of_gt (Nat.add_pos_left hPos n)
  · rw [if_pos (by simpa using hc)]
    exact iff_of_true rfl hc

/-- Parameters read at byte positions: no cut ever fails, and the parameters are the same. -/
theorem paramsOf?_eq (s : List Char) : paramsOf? s = some (paramsOf s) := by
  fun_induction paramsOf? s with
  | case1 s hRest => rw [paramsOf_eq, hRest, paramsAfterSpace, ite_self]
  | case2 s c text hRest hSame => rw [paramsOf_eq, hRest, if_pos hSame]
  | case3 s text hRest hMore =>
      rw [paramsOf_eq, hRest, if_neg hMore, paramsAfterSpace, Text.cutAt?_find?]
      rfl
  | case4 s c text hRest hMore hColon stop hStop =>
      have hc := (stop_eq_zero_iff c text).mp hStop
      rw [paramsOf_eq, hRest, if_neg hMore,
        paramsAfterSpace_of_stop hc (ne_space_of_dropWhile hRest) hColon]
  | case5 s c text hRest hMore hColon stop hStop hCut =>
      rw [cutAt?_word] at hCut
      cases hCut
  | case6 s c text hRest hMore hColon stop hStop p hCut hLess ih =>
      rw [cutAt?_word] at hCut
      cases hCut
      have hc : inWord c = true := not_not.mp fun hNot => hStop ((stop_eq_zero_iff c text).mpr hNot)
      rw [paramsOf_eq s, hRest, if_neg hMore, paramsAfterSpace_eq hc hColon, ih]
      rfl

end RawLine

end Irc
