import Irc.Proofs.Mode.Glyphs
import Irc.Proofs.Network.ModeChanges
/-! Masks written as mode strings and read back. The letters of a mask are written in the order of
the letters, whatever bits they have, and each of them sets its own bit when it is read. Bits that
no letter has are lost on the way. A user mode string is read letter by letter: for each letter the
last mention counts. A channel mode string is read as changes; those of flags, which all add, need
one sign and no parameters. -/
namespace Irc

namespace ModeTable

open ModeChange

variable {t : ModeTable} {letter : Char} {bit : Fin 64}

def userMask (t : ModeTable) : ModeMask := .ofBits t.user.values

def flagMask (t : ModeTable) : ModeMask := .ofBits (t.channel.keys.filterMap t.flagBit?)

/-- The bits of the user mask are those that letters have. -/
theorem has_userMask_iff (t : ModeTable) (bit : Fin 64) :
    t.userMask.has bit = true ↔ ∃ letter, t.userBit? letter = some bit := by
  rw [userMask, ModeMask.has_ofBits, SortedMap.mem_values_iff]
  rfl

/-- The bits of the flag mask are those that flags have. -/
theorem has_flagMask_iff (t : ModeTable) (bit : Fin 64) :
    t.flagMask.has bit = true ↔ ∃ letter, t.flagBit? letter = some bit := by
  rw [flagMask, ModeMask.has_ofBits, List.mem_filterMap]
  refine exists_congr fun letter => and_iff_right_of_imp fun hBit => ?_
  rw [SortedMap.mem_keys_iff]
  cases hKind : t.channel.get? letter with
  | none =>
      have hNone : t.kind? letter = none := hKind
      rw [flagBit?, hNone] at hBit
      cases hBit
  | some kind => exact SortedMap.contains_of_get? hKind

/-- In the table of a server, user modes are letters in the order of their announcement. -/
theorem OfAServer.userBit?_eq (h : t.OfAServer) :
    ∃ letters : List Char, (∀ letter ∈ letters, letter.isAlpha = true) ∧
      t.userBit? = LetterBits.ranked letters := by
  obtain ⟨channel, statuses, userModes, rfl, _, _⟩ := h.complete_eq
  refine ⟨(userModes.toList.filter Char.isAlpha).eraseDups, fun letter hIn => ?_,
    funext (get?_assignUser userModes.toList)⟩
  exact (List.mem_filter.mp (List.mem_eraseDups.mp hIn)).2

/-- No two user modes share a bit. -/
theorem OfAServer.users_apart (h : t.OfAServer) : LetterBits.Apart t.userBit? := by
  obtain ⟨letters, _, hBits⟩ := h.userBit?_eq
  rw [hBits]
  exact LetterBits.ranked_apart letters

/-- No sign is a user mode. -/
theorem OfAServer.ne_sign (h : t.OfAServer) (hBit : t.userBit? letter = some bit) :
    letter ≠ '+' ∧ letter ≠ '-' := by
  obtain ⟨letters, hAlpha, hBits⟩ := h.userBit?_eq
  rw [hBits, LetterBits.ranked_eq_some_iff] at hBit
  have hLetter := hAlpha letter hBit.1
  constructor
  · rintro rfl
    cases hLetter
  · rintro rfl
    cases hLetter

/-- The sign in force after a text: its last one, or without any the one before it. -/
def signAfter (adding : Bool) (text : List Char) : Bool :=
  ((text.filter fun c => c == '+' || c == '-').getLast?.map (· == '+')).getD adding

/-- The sign after two texts is that after the second one, begun with that after the first. -/
theorem signAfter_append (adding : Bool) (before after : List Char) :
    signAfter adding (before ++ after) = signAfter (signAfter adding before) after := by
  rw [signAfter, List.filter_append, List.getLast?_append, Option.map_or, Option.getD_or]
  rfl

/-- Letters that are no user modes are skipped. -/
theorem applyUserFrom_other {adding : Bool} {mask : ModeMask} {c : Char} {rest : List Char}
    (hPlus : c ≠ '+') (hMinus : c ≠ '-') (hNone : t.userBit? c = none) :
    t.applyUserFrom adding mask (c :: rest) = t.applyUserFrom adding mask rest := by
  rw [applyUserFrom, hNone]
  · exact hPlus
  · exact hMinus

/-- A user mode sets or clears its own bit. -/
theorem applyUserFrom_letter {adding : Bool} {mask : ModeMask} {c : Char} {rest : List Char}
    (hPlus : c ≠ '+') (hMinus : c ≠ '-') (hBit : t.userBit? c = some bit) :
    t.applyUserFrom adding mask (c :: rest) =
      t.applyUserFrom adding (mask.set bit adding) rest := by
  rw [applyUserFrom, hBit]
  · exact hPlus
  · exact hMinus

/-- Each character acts on the mask and on the sign for the rest. -/
theorem applyUserFrom_cons (t : ModeTable) (adding : Bool) (mask : ModeMask) (c : Char)
    (rest : List Char) :
    t.applyUserFrom adding mask (c :: rest) =
      t.applyUserFrom (signAfter adding [c]) (t.applyUserFrom adding mask [c]) rest := by
  by_cases hPlus : c = '+'
  · subst hPlus
    rfl
  by_cases hMinus : c = '-'
  · subst hMinus
    rfl
  have hSign : signAfter adding [c] = adding := by simp [signAfter, hPlus, hMinus]
  rw [hSign]
  cases hBit : t.userBit? c with
  | none =>
      rw [applyUserFrom_other hPlus hMinus hBit, applyUserFrom_other hPlus hMinus hBit]
      rfl
  | some bit =>
      rw [applyUserFrom_letter hPlus hMinus hBit, applyUserFrom_letter hPlus hMinus hBit]
      rfl

/-- One letter touches no bit but its own. -/
theorem has_applyUserFrom_singleton {adding : Bool} {c : Char} (h : t.userBit? c ≠ some bit)
    (mask : ModeMask) : (t.applyUserFrom adding mask [c]).has bit = mask.has bit := by
  by_cases hPlus : c = '+'
  · subst hPlus
    rfl
  by_cases hMinus : c = '-'
  · subst hMinus
    rfl
  cases hBit : t.userBit? c with
  | none =>
      rw [applyUserFrom_other hPlus hMinus hBit]
      rfl
  | some b =>
      have hOther : bit ≠ b := fun hSame => h (hSame ▸ hBit)
      rw [applyUserFrom_letter hPlus hMinus hBit]
      exact (ModeMask.has_set mask b bit adding).trans (if_neg hOther)

/-- A mode string may be read in two goes if the sign is carried over. -/
theorem applyUserFrom_append (t : ModeTable) (adding : Bool) (mask : ModeMask)
    (before after : List Char) :
    t.applyUserFrom adding mask (before ++ after) =
      t.applyUserFrom (signAfter adding before) (t.applyUserFrom adding mask before) after := by
  induction before generalizing adding mask with
  | nil => rfl
  | cons c rest ih =>
      rw [List.cons_append, applyUserFrom_cons, ih, applyUserFrom_cons t adding mask c rest,
        ← signAfter_append, List.singleton_append]

/-- A bit whose letter does not occur stays as it is. -/
theorem has_applyUserFrom_of_no_letter {text : List Char}
    (h : ∀ c ∈ text, t.userBit? c ≠ some bit) (adding : Bool) (mask : ModeMask) :
    (t.applyUserFrom adding mask text).has bit = mask.has bit := by
  induction text generalizing adding mask with
  | nil => rfl
  | cons c rest ih =>
      obtain ⟨hFirst, hRest⟩ := List.forall_mem_cons.mp h
      rw [applyUserFrom_cons, ih hRest, has_applyUserFrom_singleton hFirst]

/-- The last mention of a letter gives its bit the sign that is in force there. -/
theorem OfAServer.has_applyUserFrom (h : t.OfAServer) (hBit : t.userBit? letter = some bit)
    {later : List Char} (hLast : letter ∉ later) (adding : Bool) (mask : ModeMask)
    (before : List Char) :
    (t.applyUserFrom adding mask (before ++ letter :: later)).has bit =
      signAfter adding before := by
  obtain ⟨hPlus, hMinus⟩ := h.ne_sign hBit
  have hOthers : ∀ c ∈ later, t.userBit? c ≠ some bit := by
    intro c hIn hSame
    exact hLast (h.users_apart hSame hBit ▸ hIn)
  rw [applyUserFrom_append, applyUserFrom_letter hPlus hMinus hBit,
    has_applyUserFrom_of_no_letter hOthers, ModeMask.has_set, if_pos rfl]

/-- The letters of user modes, each under a plus sign, add their bits. -/
theorem has_applyUserFrom_letters {letters : List Char}
    (hLetters : ∀ c ∈ letters, c ≠ '+' ∧ c ≠ '-' ∧ t.userBit? c ≠ none) (mask : ModeMask)
    (bit : Fin 64) :
    (t.applyUserFrom true mask letters).has bit = true ↔
      (∃ c ∈ letters, t.userBit? c = some bit) ∨ mask.has bit = true := by
  induction letters generalizing mask with
  | nil => simp [applyUserFrom]
  | cons c rest ih =>
      obtain ⟨⟨hPlus, hMinus, hSome⟩, hRest⟩ := List.forall_mem_cons.mp hLetters
      obtain ⟨b, hBit⟩ := Option.ne_none_iff_exists'.mp hSome
      rw [applyUserFrom_letter hPlus hMinus hBit, ih hRest, ModeMask.has_set]
      by_cases hSame : bit = b
      · simp [hSame, hBit]
      · simp [hSame, Ne.symm hSame, hBit]

def userLetters (t : ModeTable) (mask : ModeMask) : List Char :=
  (t.user.entries.filter fun e => mask.has e.2).map Prod.fst

theorem toList_userString (t : ModeTable) (mask : ModeMask) :
    (t.userString mask).toList = '+' :: t.userLetters mask := String.toList_ofList

/-- The letters that are written are those whose bits are set. -/
theorem mem_userLetters_iff (t : ModeTable) (mask : ModeMask) (c : Char) :
    c ∈ t.userLetters mask ↔ ∃ bit, t.userBit? c = some bit ∧ mask.has bit = true := by
  simp [userLetters, SortedMap.mem_entries_iff, userBit?]

/-- A mask that is written and read again loses the bits that no letter has, and nothing else. -/
theorem OfAServer.applyUser_userString (h : t.OfAServer) (mask : ModeMask) :
    t.applyUser ModeMask.none (t.userString mask) = mask &&& t.userMask := by
  have hLetters : ∀ c ∈ t.userLetters mask, c ≠ '+' ∧ c ≠ '-' ∧ t.userBit? c ≠ none := by
    intro c hIn
    obtain ⟨bit, hBit, _⟩ := (t.mem_userLetters_iff mask c).mp hIn
    exact ⟨(h.ne_sign hBit).1, (h.ne_sign hBit).2, by rw [hBit]; exact Option.some_ne_none bit⟩
  refine ModeMask.ext_has fun bit => ?_
  rw [Bool.eq_iff_iff, ModeMask.has_and, has_userMask_iff, applyUser, toList_userString]
  show (t.applyUserFrom true ModeMask.none (t.userLetters mask)).has bit = true ↔ _
  rw [has_applyUserFrom_letters hLetters, or_iff_left (by simp [ModeMask.none, ModeMask.has])]
  constructor
  · rintro ⟨c, hIn, hBit⟩
    obtain ⟨b, hb, hHas⟩ := (t.mem_userLetters_iff mask c).mp hIn
    rw [hBit] at hb
    cases hb
    exact ⟨hHas, c, hBit⟩
  · rintro ⟨hHas, c, hBit⟩
    exact ⟨c, (t.mem_userLetters_iff mask c).mpr ⟨bit, hBit, hHas⟩, hBit⟩

theorem flagBit?_eq_some_iff :
    t.flagBit? letter = some bit ↔ t.kind? letter = some (.flag bit) := by
  rw [flagBit?]
  cases t.kind? letter with
  | none => simp
  | some kind => cases kind <;> simp

def setting? (mask : ModeMask) (e : Char × ModeKind) : Option ModeChange :=
  match e.2 with
  | .flag bit => if mask.has bit then some ⟨true, e.1, .flag bit, none⟩ else none
  | _ => none

/-- The changes that set the flags of a mask, in the order of their letters. -/
def settings (t : ModeTable) (mask : ModeMask) : List ModeChange :=
  t.channel.entries.filterMap (setting? mask)

/-- A flag is written exactly if it is set. -/
theorem setting?_eq_some_iff {mask : ModeMask} {e : Char × ModeKind} {change : ModeChange} :
    setting? mask e = some change ↔
      ∃ bit, e.2 = .flag bit ∧ mask.has bit = true ∧ change = ⟨true, e.1, .flag bit, none⟩ := by
  obtain ⟨letter, kind⟩ := e
  cases kind with
  | flag bit =>
      simp only [setting?, Option.ite_none_right_eq_some, Option.some.injEq, ModeKind.flag.injEq,
        exists_eq_left', eq_comm (a := change)]
  | _ => simp [setting?]

/-- All that is written of a mask are the flags that are set, as additions without parameters. -/
theorem mem_settings_iff {mask : ModeMask} {change : ModeChange} :
    change ∈ t.settings mask ↔ ∃ letter bit, t.kind? letter = some (.flag bit) ∧
      mask.has bit = true ∧ change = ⟨true, letter, .flag bit, none⟩ := by
  rw [settings, List.mem_filterMap]
  constructor
  · rintro ⟨⟨letter, kind⟩, hIn, hSetting⟩
    obtain ⟨bit, rfl, hSet⟩ := setting?_eq_some_iff.mp hSetting
    exact ⟨letter, bit, SortedMap.mem_entries_iff.mp hIn, hSet⟩
  · rintro ⟨letter, bit, hKind, hSet⟩
    exact ⟨(letter, .flag bit), SortedMap.mem_entries_iff.mpr hKind,
      setting?_eq_some_iff.mpr ⟨bit, rfl, hSet⟩⟩

theorem toList_flagString (t : ModeTable) (mask : ModeMask) :
    (t.flagString mask).toList = '+' :: (t.settings mask).map ModeChange.letter := by
  rw [flagString, String.toList_ofList, settings, List.map_filterMap]
  congr 2
  funext ⟨letter, kind⟩
  cases kind with
  | flag bit =>
      simp only [setting?]
      cases mask.has bit <;> rfl
  | _ => rfl

/-- Where the signs are no letters, a mask is written as the changes that set its flags. -/
theorem read_flagString (hPlus : t.kind? '+' = none) (hMinus : t.kind? '-' = none)
    (mask : ModeMask) :
    (∀ change ∈ t.settings mask, change.Fits t) ∧
      read t [t.flagString mask] = t.settings mask := by
  have hFits : ∀ change ∈ t.settings mask, change.Fits t := by
    intro change hIn
    obtain ⟨letter, bit, hKind, _, rfl⟩ := mem_settings_iff.mp hIn
    refine ⟨?_, ?_, hKind, rfl⟩
    · rintro rfl
      rw [hPlus] at hKind
      cases hKind
    · rintro rfl
      rw [hMinus] at hKind
      cases hKind
  have hAdding : ∀ change ∈ t.settings mask, change.adding = true := by
    intro change hIn
    obtain ⟨letter, bit, _, _, rfl⟩ := mem_settings_iff.mp hIn
    rfl
  have hAll : (t.settings mask).filter (·.param.isNone) = t.settings mask := by
    refine List.filter_eq_self.mpr fun change hIn => ?_
    obtain ⟨letter, bit, _, _, rfl⟩ := mem_settings_iff.mp hIn
    rfl
  have hText : Writes t true (t.settings mask) (t.flagString mask).toList := by
    rw [toList_flagString]
    exact .plus (writes_letters t hAdding)
  exact ⟨hFits, (hText.walk_of_no_params hFits).trans hAll⟩

/-- Applied to a channel without flags, what was written gives the mask, less the bits that no flag
has. -/
theorem flags_of_settings {mask : ModeMask} (hFits : ∀ change ∈ t.settings mask, change.Fits t)
    {c : Channel} (hFlags : c.flags = ModeMask.none) (find : String → Option ClientId)
    (setter : String) (time : Int) :
    (c.applyChanges find setter time (t.settings mask)).2.flags = mask &&& t.flagMask := by
  refine ModeMask.ext_has fun bit => ?_
  have hNone : ModeMask.none.has bit = false := by simp [ModeMask.none, ModeMask.has]
  have hAdding : ∀ change ∈ (t.settings mask).filter
      (bitIf t.flagBit? (fun _ => true) · == some bit), change.adding = true := by
    intro change hIn
    obtain ⟨letter, bit, _, _, rfl⟩ := mem_settings_iff.mp (List.mem_filter.mp hIn).1
    rfl
  rw [Channel.applyChanges_snd, Channel.flags_foldl hFits, hFlags, has_foldl_onMask, hNone,
    Bool.eq_iff_iff, lastSign_eq_true_iff hAdding, ModeMask.has_and, has_flagMask_iff]
  constructor
  · rintro ⟨change, hIn⟩
    obtain ⟨hIn, hBit⟩ := List.mem_filter.mp hIn
    obtain ⟨letter, b, hKind, hHas, rfl⟩ := mem_settings_iff.mp hIn
    have hFlag : t.flagBit? letter = some bit := (bitIf_eq_some.mp (beq_iff_eq.mp hBit)).2
    have hSame := hKind.symm.trans (flagBit?_eq_some_iff.mp hFlag)
    cases hSame
    exact ⟨hHas, letter, hFlag⟩
  · rintro ⟨hHas, letter, hFlag⟩
    refine ⟨⟨true, letter, .flag bit, none⟩, List.mem_filter.mpr ⟨?_, ?_⟩⟩
    · exact mem_settings_iff.mpr ⟨letter, bit, flagBit?_eq_some_iff.mp hFlag, hHas, rfl⟩
    · exact beq_iff_eq.mpr (bitIf_eq_some.mpr ⟨rfl, hFlag⟩)

/-- A mask that is written as a user mode string and read where nothing was set comes back, save
for bits that no user mode has. So does a mask of channel flags, where no sign is a channel mode. In
every user mode string the last mention of a letter counts, and a bit whose letter is not mentioned
stays as it was. -/
theorem rendered_masks_read_back (h : t.OfAServer) :
    (∀ mask, t.applyUser ModeMask.none (t.userString mask) = mask &&& t.userMask) ∧
    (t.kind? '+' = none → t.kind? '-' = none →
      ∀ mask (c : Channel), c.flags = ModeMask.none → ∀ find setter time,
        (c.applyChanges find setter time (read t [t.flagString mask])).2.flags =
          mask &&& t.flagMask) ∧
    ∀ mask (modes : String),
      (∀ letter bit, t.userBit? letter = some bit → ∀ before later,
        modes.toList = before ++ letter :: later → letter ∉ later →
          (t.applyUser mask modes).has bit = signAfter true before) ∧
      ∀ bit, (∀ letter ∈ modes.toList, t.userBit? letter ≠ some bit) →
        (t.applyUser mask modes).has bit = mask.has bit := by
  refine ⟨h.applyUser_userString, ?flags, fun mask modes => ⟨?mentioned, ?others⟩⟩
  case flags =>
    intro hPlus hMinus mask c hFlags find setter time
    obtain ⟨hFits, hRead⟩ := read_flagString hPlus hMinus mask
    rw [hRead, flags_of_settings hFits hFlags]
  case mentioned =>
    intro letter bit hBit before later hModes hLast
    rw [applyUser, hModes, h.has_applyUserFrom hBit hLast]
  case others => exact fun bit hNone => has_applyUserFrom_of_no_letter hNone true mask

/-- Bit 9, which no letter has, is lost on the way, and the later of two mentions counts. -/
theorem rendered_masks_read_back_of_rfc1459 :
    let t := ModeTable.rfc1459
    let c := Channel.new "#c"
    t.OfAServer ∧ t.kind? '+' = none ∧ t.kind? '-' = none ∧
      t.userString 0b1000000101 = "+is" ∧ t.applyUser ModeMask.none "+is" = 0b101 ∧
      t.flagString 0b1000000101 = "+in" ∧
      (c.applyChanges (fun _ => none) "ann" 5 (read t ["+in"])).2.flags = 0b101 ∧
      (t.applyUser 0b10 "+i-zi").has 0 = false ∧ (t.applyUser 0b10 "+i-zi").has 1 = true := by
  intro t c
  obtain ⟨hUser, hFlags, hModes⟩ := @rendered_masks_read_back t .rfc1459
  have hPlus : t.kind? '+' = none := by decide +kernel
  have hMinus : t.kind? '-' = none := by decide +kernel
  have hUserText : t.userString 0b1000000101 = "+is" := by decide +kernel
  have hFlagText : t.flagString 0b1000000101 = "+in" := by decide +kernel
  have hUserMask : (0b1000000101 : ModeMask) &&& t.userMask = 0b101 := by decide +kernel
  have hFlagMask : (0b1000000101 : ModeMask) &&& t.flagMask = 0b101 := by decide +kernel
  have hChars : "+i-zi".toList = ['+', 'i', '-', 'z', 'i'] := by decide +kernel
  obtain ⟨hMentioned, hOthers⟩ := hModes 0b10 "+i-zi"
  rw [hChars] at hMentioned hOthers
  refine ⟨.rfc1459, hPlus, hMinus, hUserText, ?_, hFlagText, ?_, ?_, ?_⟩
  · rw [← hUserText, ← hUserMask]
    exact hUser 0b1000000101
  · rw [← hFlagText, ← hFlagMask]
    exact hFlags hPlus hMinus 0b1000000101 c rfl (fun _ => none) "ann" 5
  · exact hMentioned 'i' 0 (by decide +kernel) ['+', 'i', '-', 'z'] [] rfl List.not_mem_nil
  · refine hOthers 1 ?_
    simp only [List.forall_mem_cons, List.not_mem_nil, false_imp_iff, implies_true, and_true]
    decide +kernel

end ModeTable

end Irc
