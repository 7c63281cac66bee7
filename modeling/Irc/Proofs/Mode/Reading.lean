import Irc.Mode.Change
/-! Mode strings read back. Changes are written as their letters, each under its sign, with their
parameters after the string and in the same order. Signs may be repeated or of no effect, and
letters that the table lacks may stand anywhere. Parameters that are not needed are not read, and
where some are missing only the changes that need them are. -/
namespace Irc

namespace ModeChange

/-- A change that a mode string can make: its letter is no sign, it has the kind that the table
gives the letter, and it has a parameter exactly if that kind takes one under its sign. -/
structure Fits (t : ModeTable) (change : ModeChange) : Prop where
  notPlus : change.letter ≠ '+'
  notMinus : change.letter ≠ '-'
  kind_eq : t.kind? change.letter = some change.kind
  param_eq : change.param.isSome = change.kind.takesParam change.adding

def operands (changes : List ModeChange) : List String := changes.filterMap param

/-- The texts of changes, where a sign is already in force. -/
inductive Writes (t : ModeTable) : Bool → List ModeChange → List Char → Prop
  | nil (adding : Bool) : Writes t adding [] []
  | plus {adding : Bool} {changes : List ModeChange} {text : List Char}
      (rest : Writes t true changes text) : Writes t adding changes ('+' :: text)
  | minus {adding : Bool} {changes : List ModeChange} {text : List Char}
      (rest : Writes t false changes text) : Writes t adding changes ('-' :: text)
  | unknown {adding : Bool} {changes : List ModeChange} {text : List Char} {c : Char}
      (notPlus : c ≠ '+') (notMinus : c ≠ '-') (kind_eq : t.kind? c = none)
      (rest : Writes t adding changes text) : Writes t adding changes (c :: text)
  | letter (change : ModeChange) {changes : List ModeChange} {text : List Char}
      (rest : Writes t change.adding changes text) :
      Writes t change.adding (change :: changes) (change.letter :: text)

def signed (change : ModeChange) : List Char :=
  [if change.adding then '+' else '-', change.letter]

/-- A sign before each letter is one way to write changes. -/
theorem writes_signed (t : ModeTable) (adding : Bool) (changes : List ModeChange) :
    Writes t adding changes (changes.flatMap signed) := by
  induction changes generalizing adding with
  | nil => exact .nil adding
  | cons change rest ih =>
      have hLetter := Writes.letter change (ih change.adding)
      rw [List.flatMap_cons, signed]
      cases hSign : change.adding with
      | true =>
          rw [hSign] at hLetter
          exact .plus hLetter
      | false =>
          rw [hSign] at hLetter
          exact .minus hLetter

/-- Changes of one sign need no sign of their own under it. -/
theorem writes_letters (t : ModeTable) {adding : Bool} {changes : List ModeChange}
    (h : ∀ change ∈ changes, change.adding = adding) :
    Writes t adding changes (changes.map letter) := by
  induction changes with
  | nil => exact .nil adding
  | cons change rest ih =>
      obtain ⟨rfl, hRest⟩ := List.forall_mem_cons.mp h
      exact .letter change (ih hRest)

section Walk

variable {t : ModeTable} {adding : Bool} {params : List String} {changes : List ModeChange}
  {text : List Char}

/-- Letters that the table lacks are skipped, with no parameter used up. -/
theorem walk_unknown {c : Char} (hPlus : c ≠ '+') (hMinus : c ≠ '-') (hKind : t.kind? c = none) :
    walk t adding params (c :: text) = walk t adding params text := by
  rw [walk, hKind]
  · exact hPlus
  · exact hMinus

/-- A letter that the table knows makes a change, if there is a parameter for it or it takes none,
and is skipped otherwise. -/
theorem walk_known {c : Char} {kind : ModeKind} (hPlus : c ≠ '+') (hMinus : c ≠ '-')
    (hKind : t.kind? c = some kind) :
    walk t adding params (c :: text) =
      if kind.takesParam adding then
        match params with
        | [] => walk t adding [] text
        | p :: params => ⟨adding, c, kind, some p⟩ :: walk t adding params text
      else ⟨adding, c, kind, none⟩ :: walk t adding params text := by
  cases params with
  | nil => simp only [walk, hKind]
  | cons p params => simp only [walk, hKind]

/-- A change without a parameter is read from its letter alone. -/
theorem walk_of_param_eq_none {change : ModeChange} (h : change.Fits t)
    (hParam : change.param = none) :
    walk t change.adding params (change.letter :: text) =
      change :: walk t change.adding params text := by
  have hTakes : ¬change.kind.takesParam change.adding = true := by
    rw [← h.param_eq, hParam]
    exact Bool.false_ne_true
  rw [walk_known h.notPlus h.notMinus h.kind_eq, if_neg hTakes, ← hParam]

/-- A change with a parameter takes the next one. -/
theorem walk_of_param_eq_some {change : ModeChange} {p : String} (h : change.Fits t)
    (hParam : change.param = some p) :
    walk t change.adding (p :: params) (change.letter :: text) =
      change :: walk t change.adding params text := by
  have hTakes : change.kind.takesParam change.adding = true := by
    rw [← h.param_eq, hParam]
    rfl
  have hWhole : (⟨change.adding, change.letter, change.kind, some p⟩ : ModeChange) = change := by
    rw [← hParam]
  rw [walk_known h.notPlus h.notMinus h.kind_eq, if_pos hTakes]
  exact congrArg (· :: walk t change.adding params text) hWhole

/-- A change whose parameter is missing is left out. -/
theorem walk_nil_of_param_eq_some {change : ModeChange} {p : String} (h : change.Fits t)
    (hParam : change.param = some p) :
    walk t change.adding [] (change.letter :: text) = walk t change.adding [] text := by
  have hTakes : change.kind.takesParam change.adding = true := by
    rw [← h.param_eq, hParam]
    rfl
  rw [walk_known h.notPlus h.notMinus h.kind_eq, if_pos hTakes]

/-- Where nothing is written, nothing is read. -/
theorem Writes.walk_nil (h : Writes t adding [] text) (params : List String) :
    walk t adding params text = [] := by
  generalize hNone : ([] : List ModeChange) = changes at h
  induction h with
  | nil adding => rfl
  | plus rest ih => exact ih hNone
  | minus rest ih => exact ih hNone
  | unknown notPlus notMinus kind_eq rest ih =>
      rw [walk_unknown notPlus notMinus kind_eq]
      exact ih hNone
  | letter change rest ih => cases hNone

/-- Without parameters, the changes that need none are read. -/
theorem Writes.walk_of_no_params (h : Writes t adding changes text)
    (hFits : ∀ change ∈ changes, change.Fits t) :
    walk t adding [] text = changes.filter (·.param.isNone) := by
  induction h with
  | nil adding => rfl
  | plus rest ih => exact ih hFits
  | minus rest ih => exact ih hFits
  | unknown notPlus notMinus kind_eq rest ih =>
      rw [walk_unknown notPlus notMinus kind_eq]
      exact ih hFits
  | letter change rest ih =>
      obtain ⟨hFirst, hRest⟩ := List.forall_mem_cons.mp hFits
      cases hParam : change.param with
      | none =>
          rw [walk_of_param_eq_none hFirst hParam, ih hRest, List.filter_cons_of_pos]
          rw [hParam]
          rfl
      | some p =>
          rw [walk_nil_of_param_eq_some hFirst hParam, ih hRest, List.filter_cons_of_neg]
          rw [hParam]
          exact Bool.false_ne_true

/-- With the parameters of the first changes these are read, and then whatever the rest of the
text gives with the parameters that are left. -/
theorem Writes.walk_append {before after : List ModeChange}
    (h : Writes t adding (before ++ after) text) (hFits : ∀ change ∈ before, change.Fits t) :
    ∃ adding' text', Writes t adding' after text' ∧
      ∀ params, walk t adding (operands before ++ params) text =
        before ++ walk t adding' params text' := by
  -- on the text, since signs and unknown letters may stand before, between and after the changes
  generalize hAll : before ++ after = changes at h
  induction h generalizing before with
  | nil adding =>
      obtain ⟨rfl, rfl⟩ := List.append_eq_nil_iff.mp hAll
      exact ⟨adding, [], .nil adding, fun params => rfl⟩
  | plus rest ih => exact ih hFits hAll
  | minus rest ih => exact ih hFits hAll
  | unknown notPlus notMinus kind_eq rest ih =>
      obtain ⟨adding', text', hRest, hWalk⟩ := ih hFits hAll
      refine ⟨adding', text', hRest, fun params => ?_⟩
      rw [walk_unknown notPlus notMinus kind_eq]
      exact hWalk params
  | letter change rest ih =>
      cases before with
      | nil =>
          rw [List.nil_append] at hAll
          rw [hAll]
          exact ⟨_, _, .letter change rest, fun params => rfl⟩
      | cons first before =>
          obtain ⟨rfl, hLater⟩ := List.cons.inj hAll
          obtain ⟨hFirst, hBefore⟩ := List.forall_mem_cons.mp hFits
          obtain ⟨adding', text', hRest, hWalk⟩ := ih hBefore hLater
          refine ⟨adding', text', hRest, fun params => ?_⟩
          rw [operands, List.cons_append, ← hWalk params]
          cases hParam : first.param with
          | none =>
              rw [List.filterMap_cons_none hParam]
              exact walk_of_param_eq_none hFirst hParam
          | some p =>
              rw [List.filterMap_cons_some hParam]
              exact walk_of_param_eq_some hFirst hParam

/-- Whatever text is read, only changes that the table allows come out. -/
theorem fits_of_mem_walk {change : ModeChange} (h : change ∈ walk t adding params text) :
    change.Fits t := by
  induction text generalizing adding params with
  | nil => cases h
  | cons c rest ih =>
      by_cases hPlus : c = '+'
      · subst hPlus
        exact ih h
      by_cases hMinus : c = '-'
      · subst hMinus
        exact ih h
      cases hKind : t.kind? c with
      | none =>
          rw [walk_unknown hPlus hMinus hKind] at h
          exact ih h
      | some kind =>
          rw [walk_known hPlus hMinus hKind] at h
          by_cases hTakes : kind.takesParam adding = true
          · rw [if_pos hTakes] at h
            cases params with
            | nil => exact ih h
            | cons p params =>
                rcases List.mem_cons.mp h with rfl | h
                · exact ⟨hPlus, hMinus, hKind, hTakes.symm⟩
                · exact ih h
          · rw [if_neg hTakes] at h
            rcases List.mem_cons.mp h with rfl | h
            · exact ⟨hPlus, hMinus, hKind, (Bool.eq_false_iff.mpr hTakes).symm⟩
            · exact ih h

/-- Every change that is read fits its table. -/
theorem fits_of_mem_read {change : ModeChange} {pieces : List String}
    (h : change ∈ read t pieces) : change.Fits t := by
  cases pieces with
  | nil => cases h
  | cons modes params => exact fits_of_mem_walk h

end Walk

/-- Changes that a mode string can make have a text, and every text of theirs reads back. All of
them are read if their parameters follow it, whatever else follows; and if only the parameters of
the first ones do, these are read, and of all others those that need none. -/
theorem read_of_writes {t : ModeTable} {changes : List ModeChange}
    (hFits : ∀ change ∈ changes, change.Fits t) :
    Writes t true changes (changes.flatMap signed) ∧
    ∀ text : String, Writes t true changes text.toList →
      (∀ surplus, read t (text :: (operands changes ++ surplus)) = changes) ∧
      ∀ before after, changes = before ++ after →
        read t (text :: operands before) = before ++ after.filter (·.param.isNone) := by
  refine ⟨writes_signed t true changes, fun text hText => ⟨fun surplus => ?_, ?_⟩⟩
  · have hWhole : Writes t true (changes ++ []) text.toList := by rwa [List.append_nil]
    obtain ⟨adding, rest, hRest, hWalk⟩ := hWhole.walk_append hFits
    rw [read, hWalk surplus, hRest.walk_nil, List.append_nil]
  · rintro before after rfl
    obtain ⟨hBefore, hAfter⟩ := List.forall_mem_append.mp hFits
    obtain ⟨adding, rest, hRest, hWalk⟩ := hText.walk_append hBefore
    have hRead := hWalk []
    rw [List.append_nil, hRest.walk_of_no_params hAfter] at hRead
    exact hRead

/-- A ban and a limit are unset and the channel is moderated and opened, with a sign too many, a
letter that nobody knows, and no mask for the ban. -/
theorem read_of_writes_of_missing_mask :
    let key : ModeChange := ⟨true, 'k', .doubleParameter, some "key"⟩
    let others : List ModeChange := [⟨false, 'b', .list, some "*!*@x"⟩,
      ⟨false, 'l', .parameter, none⟩, ⟨true, 'm', .flag 1, none⟩]
    (∀ change ∈ key :: others, change.Fits .rfc1459) ∧
      read .rfc1459 ["kZ+--bl+m", "key", "*!*@x", "more"] = key :: others ∧
      read .rfc1459 ["kZ+--bl+m", "key"] = key :: others.drop 1 := by
  intro key others
  have hFits : ∀ change ∈ key :: others, change.Fits .rfc1459 := by
    simp only [key, others, List.forall_mem_cons, List.not_mem_nil, false_imp_iff, implies_true,
      and_true]
    exact ⟨⟨by decide, by decide, by decide +kernel, rfl⟩,
      ⟨by decide, by decide, by decide +kernel, rfl⟩,
      ⟨by decide, by decide, by decide +kernel, rfl⟩,
      ⟨by decide, by decide, by decide +kernel, rfl⟩⟩
  have hChars : "kZ+--bl+m".toList = ['k', 'Z', '+', '-', '-', 'b', 'l', '+', 'm'] := by
    decide +kernel
  have hText : Writes .rfc1459 true (key :: others) "kZ+--bl+m".toList := by
    rw [hChars]
    refine .letter key (.unknown (by decide) (by decide) (by decide +kernel) ?_)
    refine .plus (.minus (.minus (.letter ⟨false, 'b', .list, some "*!*@x"⟩ ?_)))
    refine .letter ⟨false, 'l', .parameter, none⟩ (.plus ?_)
    exact .letter ⟨true, 'm', .flag 1, none⟩ (.nil true)
  obtain ⟨hAll, hSome⟩ := (read_of_writes hFits).2 _ hText
  exact ⟨hFits, hAll ["more"], hSome [key] others rfl⟩

end ModeChange

end Irc
