import Irc.Line.Tag
import Irc.Proofs.Text.Pieces
/-! Tags come back from their text. A value is written without separators, so that a tag section
falls apart where its tags were joined, and reading the escapes of a value undoes writing them. Of
other texts it is said what becomes of escapes that stand for nothing else, of a backslash at the
end and of segments without a key. -/
namespace Irc.Tag

/-- Characters that are no backslash stand for themselves. -/
theorem unescape_cons {c : Char} (h : c ≠ '\\') (rest : List Char) :
    unescape (c :: rest) = c :: unescape rest := by
  rw [unescape]
  · rintro rfl
    exact absurd rfl h
  · rintro d rest rfl
    exact absurd rfl h

/-- One character comes back, whatever is written after it. -/
theorem unescape_escapeChar (c : Char) (rest : List Char) :
    unescape (escapeChar c ++ rest) = c :: unescape rest := by
  unfold escapeChar
  split
  case h_6 hBackslash _ _ => exact unescape_cons hBackslash rest
  all_goals rfl

/-- Reading the escapes of a text undoes writing them. -/
theorem unescape_escape (s : List Char) : unescape (escape s) = s := by
  induction s with
  | nil => rfl
  | cons c rest ih =>
      have hEscape : escape (c :: rest) = escapeChar c ++ escape rest := List.flatMap_cons
      rw [hEscape, unescape_escapeChar, ih]

/-- An escape that stands for nothing else stands for its character. -/
theorem unescapeChar_of_not_mem {c : Char} (h : c ∉ [':', 's', '\\', 'r', 'n']) :
    unescapeChar c = c := by
  unfold unescapeChar
  split
  case h_5 => rfl
  all_goals exact absurd (by decide) h

theorem escape_eq_nil_iff (s : List Char) : escape s = [] ↔ s = [] := by
  constructor
  · intro h
    rw [← unescape_escape s, h]
    rfl
  · rintro rfl
    rfl

/-- No escape of a character has the mark that ends a tag. -/
theorem semicolon_not_mem_escape (s : List Char) : ';' ∉ escape s := by
  intro hIn
  obtain ⟨c, _, hc⟩ := List.mem_flatMap.mp hIn
  unfold escapeChar at hc
  split at hc
  case h_6 hSemicolon _ _ _ _ => exact hSemicolon (List.mem_singleton.mp hc).symm
  all_goals exact absurd hc (by decide)

/-- A text in which every backslash has the character that it escapes. -/
inductive Whole : List Char → Prop
  | nil : Whole []
  | plain {c : Char} {rest : List Char} : c ≠ '\\' → Whole rest → Whole (c :: rest)
  | escape (c : Char) {rest : List Char} : Whole rest → Whole ('\\' :: c :: rest)

/-- The only other texts are those that end in the middle of an escape. -/
theorem whole_or_lone (s : List Char) :
    Whole s ∨ ∃ before, Whole before ∧ s = before ++ ['\\'] := by
  induction s using unescape.induct with
  | case1 => exact .inl .nil
  | case2 => exact .inr ⟨[], .nil, rfl⟩
  | case3 c rest ih =>
      rcases ih with hWhole | ⟨before, hBefore, rfl⟩
      · exact .inl (.escape c hWhole)
      · exact .inr ⟨'\\' :: c :: before, .escape c hBefore, rfl⟩
  | case4 c rest hLone hEscape ih =>
      -- The cases before took every text that begins with a backslash.
      have hPlain : c ≠ '\\' := by
        rintro rfl
        cases rest with
        | nil => exact hLone rfl rfl
        | cons d rest => exact hEscape d rest rfl rfl
      rcases ih with hWhole | ⟨before, hBefore, rfl⟩
      · exact .inl (.plain hPlain hWhole)
      · exact .inr ⟨c :: before, .plain hPlain hBefore, rfl⟩

/-- Behind a text that does not end within an escape, reading starts anew. -/
theorem unescape_append {s : List Char} (h : Whole s) (rest : List Char) :
    unescape (s ++ rest) = unescape s ++ unescape rest := by
  induction h with
  | nil => rfl
  | plain hPlain _ ih =>
      rw [List.cons_append, unescape_cons hPlain, unescape_cons hPlain, ih, List.cons_append]
  | escape c _ ih =>
      rw [List.cons_append, List.cons_append, unescape, unescape, ih, List.cons_append]

structure IsKey (key : List Char) : Prop where
  nonempty : key ≠ []
  noEnd : ';' ∉ key
  noValue : '=' ∉ key

/-- Whether a segment has something before its first `=`. -/
def hasKey (s : List Char) : Bool := s.head?.any (· != '=')

/-- A segment without a sign of equality is a key alone. -/
theorem ofPiece?_bare {key : List Char} (hNonempty : key ≠ []) (hKey : '=' ∉ key) :
    ofPiece? key = some ⟨String.ofList key, none⟩ := by
  have hCut : Text.cut '=' key = none := Text.cut_eq_none_iff.mpr hKey
  simp [ofPiece?, hCut, hNonempty]

/-- A segment with one is cut at the first; an empty value is none. -/
theorem ofPiece?_append {key : List Char} (hNonempty : key ≠ []) (hKey : '=' ∉ key)
    (value : List Char) :
    ofPiece? (key ++ '=' :: value) = some ⟨String.ofList key,
      if value = [] then none else some (String.ofList (unescape value))⟩ := by
  have hCut : Text.cut '=' (key ++ '=' :: value) = some (key, value) :=
    Text.cut_eq_some_iff.mpr ⟨rfl, hKey⟩
  simp [ofPiece?, hCut, hNonempty]

/-- Segments count exactly if they have a key. -/
theorem isSome_ofPiece? (s : List Char) : (ofPiece? s).isSome = hasKey s := by
  cases hCut : Text.cut '=' s with
  | none =>
      have hValue : '=' ∉ s := Text.cut_eq_none_iff.mp hCut
      cases s with
      | nil => rfl
      | cons c rest =>
          rw [ofPiece?_bare (List.cons_ne_nil c rest) hValue]
          have hc : c ≠ '=' := fun h => hValue (h ▸ List.mem_cons_self)
          simp [hasKey, hc]
  | some parts =>
      obtain ⟨rfl, hKey⟩ := Text.cut_eq_some_iff.mp hCut
      cases hHead : parts.1 with
      | nil => simp [ofPiece?, hasKey, Text.cut]
      | cons c key =>
          rw [hHead] at hKey
          rw [ofPiece?_append (List.cons_ne_nil c key) hKey]
          have hc : c ≠ '=' := fun h => hKey (h ▸ List.mem_cons_self)
          simp [hasKey, hc]

theorem readAll_of_not_mem {s : List Char} (h : ';' ∉ s) : readAll s = (ofPiece? s).toList := by
  have hPieces : Text.pieces (· == ';') s = [s] :=
    Text.pieces_eq_singleton fun x hx => beq_false_of_ne fun hEnd => h (hEnd ▸ hx)
  cases hPiece : ofPiece? s with
  | none => simp [readAll, hPieces, hPiece]
  | some t => simp [readAll, hPieces, hPiece]

/-- Segments that are joined are read one by one. -/
theorem readAll_intercalate {segments : List (List Char)} (h : ∀ s ∈ segments, ';' ∉ s) :
    readAll ([';'].intercalate segments) = segments.filterMap ofPiece? := by
  by_cases hNone : segments = []
  · subst hNone
    rfl
  · have hPieces : Text.pieces (· == ';') ([';'].intercalate segments) = segments :=
      Text.pieces_intercalate (by decide) hNone fun s hs x hx =>
        beq_false_of_ne fun hEnd => h s hs (hEnd ▸ hx)
    rw [readAll, hPieces]

/-- Only segments with a key count, each for itself. -/
theorem readAll_segments {segments : List (List Char)} (h : ∀ s ∈ segments, ';' ∉ s) :
    readAll ([';'].intercalate segments) = (segments.filter hasKey).flatMap readAll := by
  rw [readAll_intercalate h]
  induction segments with
  | nil => rfl
  | cons s rest ih =>
      obtain ⟨hHere, hRest⟩ := List.forall_mem_cons.mp h
      have hSome := isSome_ofPiece? s
      cases hPiece : ofPiece? s with
      | none =>
          rw [hPiece] at hSome
          rw [List.filterMap_cons_none hPiece, ih hRest, List.filter_cons_of_neg (by simp [← hSome])]
      | some t =>
          rw [hPiece] at hSome
          rw [List.filterMap_cons_some hPiece, ih hRest, List.filter_cons_of_pos (by simp [← hSome]),
            List.flatMap_cons, readAll_of_not_mem hHere, hPiece]
          rfl

/-- A tag whose value is empty has none. -/
def settled (t : Tag) : Tag := { t with value := t.value.filter (· != "") }

/-- A tag comes back from its own segment, with an empty value as none. -/
theorem ofPiece?_write {t : Tag} (h : IsKey t.key.toList) : ofPiece? (write t) = some t.settled := by
  obtain ⟨key, value⟩ := t
  cases value with
  | none =>
      have hWrite : write ⟨key, none⟩ = key.toList := List.append_nil _
      rw [hWrite, ofPiece?_bare h.nonempty h.noValue, String.ofList_toList]
      rfl
  | some v =>
      have hWrite : write ⟨key, some v⟩ = key.toList ++ '=' :: escape v.toList := rfl
      rw [hWrite, ofPiece?_append h.nonempty h.noValue, unescape_escape, String.ofList_toList,
        String.ofList_toList]
      by_cases hEmpty : v = "" <;> simp [settled, escape_eq_nil_iff, Option.filter_some, hEmpty]

theorem semicolon_not_mem_write {t : Tag} (h : IsKey t.key.toList) : ';' ∉ write t := by
  obtain ⟨key, value⟩ := t
  cases value with
  | none => simpa [write] using h.noEnd
  | some v => simpa [write] using ⟨h.noEnd, semicolon_not_mem_escape v.toList⟩

/-- Tags come back in their order, those with the same key included. -/
theorem readAll_writeAll {tags : List Tag} (h : ∀ t ∈ tags, IsKey t.key.toList) :
    readAll (writeAll tags) = tags.map settled := by
  have hSegments : ∀ s ∈ tags.map write, ';' ∉ s := by
    intro s hs
    obtain ⟨t, hIn, rfl⟩ := List.mem_map.mp hs
    exact semicolon_not_mem_write (h t hIn)
  rw [writeAll, readAll_intercalate hSegments, List.filterMap_map, ← List.filterMap_eq_map]
  apply List.filterMap_congr
  intro t hIn
  exact ofPiece?_write (h t hIn)

theorem readAll_append {key value : List Char} (hKey : IsKey key) (hValue : value ≠ [])
    (hEnd : ';' ∉ value) :
    readAll (key ++ '=' :: value) =
      [⟨String.ofList key, some (String.ofList (unescape value))⟩] := by
  have hPlain : ';' ∉ key ++ '=' :: value := by simp [hKey.noEnd, hEnd]
  rw [readAll_of_not_mem hPlain, ofPiece?_append hKey.nonempty hKey.noValue, if_neg hValue]
  rfl

/-- Reading a tag section undoes writing it, up to values that are empty. A value is read escape by
escape, an unknown one as the character in it, and a backslash that escapes nothing is dropped.
Segments without a key leave no trace. -/
theorem reading_undoes_writing :
    (∀ tags : List Tag, (∀ t ∈ tags, IsKey t.key.toList) →
      readAll (writeAll tags) = tags.map settled) ∧
    (∀ key value : List Char, IsKey key → value ≠ [] → ';' ∉ value →
      readAll (key ++ '=' :: value) =
        [⟨String.ofList key, some (String.ofList (unescape value))⟩]) ∧
    (∀ (before : List Char) (c : Char) (rest : List Char), Whole before →
      c ∉ [':', 's', '\\', 'r', 'n'] →
      unescape (before ++ '\\' :: c :: rest) = unescape before ++ c :: unescape rest) ∧
    (∀ s : List Char, Whole s ∨
      ∃ before, Whole before ∧ s = before ++ ['\\'] ∧ unescape s = unescape before) ∧
    (∀ segments : List (List Char), (∀ s ∈ segments, ';' ∉ s) →
      readAll ([';'].intercalate segments) = (segments.filter hasKey).flatMap readAll) ∧
    (∀ s : List Char, ';' ∉ s → (readAll s).length = if hasKey s then 1 else 0) := by
  refine ⟨fun tags => readAll_writeAll, fun key value => readAll_append, ?unknown, ?lone,
    fun segments => readAll_segments, ?single⟩
  case unknown =>
    intro before c rest hWhole hUnknown
    rw [unescape_append hWhole, unescape, unescapeChar_of_not_mem hUnknown]
  case lone =>
    intro s
    rcases whole_or_lone s with hWhole | ⟨before, hBefore, rfl⟩
    · exact .inl hWhole
    · refine .inr ⟨before, hBefore, rfl, ?_⟩
      rw [unescape_append hBefore, unescape, List.append_nil]
  case single =>
    intro s hEnd
    rw [readAll_of_not_mem hEnd, Option.length_toList, isSome_ofPiece?]

/-- A key that comes twice, an empty value, an escape that stands for nothing else, a backslash at
the end, and segments that are empty or without a key. -/
theorem reading_undoes_writing_of_repeats :
    readAll (writeAll [⟨"k", some "a; \\"⟩, ⟨"+d/r", none⟩, ⟨"k", some ""⟩]) =
      [⟨"k", some "a; \\"⟩, ⟨"+d/r", none⟩, ⟨"k", none⟩] ∧
    readAll "k=\\xb\\".toList = [⟨"k", some "xb"⟩] ∧
    unescape "\\\\\\x".toList = "\\x".toList ∧
    readAll ([';'].intercalate ["".toList, "=o".toList, "f".toList]) = [⟨"f", none⟩] ∧
    (readAll "=o".toList).length = 0 := by
  obtain ⟨hTags, hValue, hUnknown, -, hSegments, hSingle⟩ := reading_undoes_writing
  have hKey : IsKey "k".toList := ⟨by decide, by decide, by decide⟩
  have hBare : IsKey "+d/r".toList := ⟨by decide, by decide, by decide⟩
  refine ⟨?_, ?_, ?_, ?_, ?_⟩
  · apply hTags
    simp only [List.forall_mem_cons]
    exact ⟨hKey, hBare, hKey, List.forall_mem_nil _⟩
  · exact hValue "k".toList "\\xb\\".toList hKey (by decide) (by decide)
  · exact hUnknown ['\\', '\\'] 'x' [] (.escape '\\' .nil) (by decide)
  · exact hSegments ["".toList, "=o".toList, "f".toList] (by decide)
  · exact hSingle "=o".toList (by decide)

end Irc.Tag
