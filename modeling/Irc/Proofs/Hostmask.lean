import Irc.Line
import Irc.Proofs.CaseFolding
import Mathlib.Data.List.TakeWhile
/-! Sources and their parts. What a source is split into can be joined and split again without
loss, and so can exactly those parts that no separator cuts short. The nickname in a source is
plain: reading it as a source again gives it back. A text that is more than a nickname does not
fold like the nickname in it. -/
namespace Irc

namespace Hostmask

def inNick (c : Char) : Bool := c != '!' && c != '@'

/-- The ident and the host, read from what follows the nickname. -/
def details : List Char → List Char × List Char
  | [] => ([], [])
  | '@' :: host => ([], host)
  | _ :: rest => (Text.cut '@' rest).getD (rest, [])

/-- The ident and the host, as they follow the nickname. -/
def written (ident host : List Char) : List Char :=
  (if ident = [] then [] else '!' :: ident) ++ if host = [] then [] else '@' :: host

/-- The nickname is what comes before the first mark; the details are read off the rest. -/
theorem splitParts_eq (raw : List Char) :
    splitParts raw = ((raw.dropWhile (· == ':')).takeWhile inNick,
      details ((raw.dropWhile (· == ':')).dropWhile inNick)) := by
  unfold splitParts
  simp only
  split
  case h_1 h =>
    have hDrop : (raw.dropWhile (· == ':')).dropWhile inNick = [] := h
    rw [hDrop]
    rfl
  case h_2 host h =>
    have hDrop : (raw.dropWhile (· == ':')).dropWhile inNick = '@' :: host := h
    rw [hDrop]
    rfl
  case h_3 c rest hHost h =>
    have hDrop : (raw.dropWhile (· == ':')).dropWhile inNick = c :: rest := h
    rw [hDrop, details]
    · cases Text.cut '@' rest with
      | none => rfl
      | some p => rfl
    · exact hHost

theorem splitParts_fst (s : List Char) :
    (splitParts s).1 = (s.dropWhile (· == ':')).takeWhile inNick := by
  rw [splitParts_eq]

theorem toList_join (nick ident host : String) :
    (join nick ident host).toList = nick.toList ++ written ident.toList host.toList := by
  unfold join written
  by_cases hIdent : ident = "" <;> by_cases hHost : host = "" <;> simp [hIdent, hHost]

/-- Parts that no separator cuts short: the nickname neither begins with a colon nor has a mark
that would end it, and the ident does not have the mark that would end it. The host is free. -/
structure Separable (nick ident : List Char) : Prop where
  noBang : '!' ∉ nick
  noAt : '@' ∉ nick
  noColon : nick.head? ≠ some ':'
  identNoAt : '@' ∉ ident

/-- Details without an at sign in the user name are read back as they were written. -/
theorem details_written {ident : List Char} (h : '@' ∉ ident) (host : List Char) :
    details (written ident host) = (ident, host) := by
  cases ident with
  | nil => cases host <;> rfl
  | cons c ident =>
      cases host with
      | nil =>
          have hCut : Text.cut '@' (c :: ident) = none := Text.cut_eq_none_iff.mpr h
          simp [written, details, hCut]
      | cons d host =>
          have hCut : Text.cut '@' (c :: ident ++ '@' :: d :: host) = some (c :: ident, d :: host) :=
            Text.cut_eq_some_iff.mpr ⟨rfl, h⟩
          simpa [written, details] using congrArg (Option.getD · _) hCut

/-- What follows the nickname begins with a mark. -/
theorem head?_written (ident host : List Char) :
    (written ident host).head? ∈ [none, some '!', some '@'] := by
  cases ident with
  | nil => cases host <;> simp [written]
  | cons c ident => simp [written]

/-- Details are empty or begin with a mark, so the nickname ends where they begin. -/
theorem takeWhile_written (ident host : List Char) :
    (written ident host).takeWhile inNick = [] ∧
      (written ident host).dropWhile inNick = written ident host := by
  have hHead := head?_written ident host
  cases h : written ident host with
  | nil => simp
  | cons c rest =>
      have hMark : c = '!' ∨ c = '@' := by simpa [h] using hHead
      have hc : ¬inNick c = true := by
        rcases hMark with rfl | rfl
        · decide
        · decide
      exact ⟨List.takeWhile_cons_of_neg hc, List.dropWhile_cons_of_neg hc⟩

theorem dropWhile_colon {s : List Char} (h : s.head? ≠ some ':') : s.dropWhile (· == ':') = s := by
  cases s with
  | nil => rfl
  | cons c rest =>
      apply List.dropWhile_cons_of_neg
      simpa using h

namespace Separable

variable {nick ident : List Char}

/-- There is no mark in the nickname of separable parts. -/
theorem inNick (h : Separable nick ident) : ∀ c ∈ nick, Hostmask.inNick c = true := by
  intro c hc
  have hBang : c ≠ '!' := fun he => h.noBang (he ▸ hc)
  have hAt : c ≠ '@' := fun he => h.noAt (he ▸ hc)
  simp [Hostmask.inNick, hBang, hAt]

theorem head?_append (h : Separable nick ident) (host : List Char) :
    (nick ++ written ident host).head? ≠ some ':' := by
  cases nick with
  | nil =>
      intro hColon
      have hHead := head?_written ident host
      rw [List.nil_append] at hColon
      rw [hColon] at hHead
      simp at hHead
  | cons c rest => exact h.noColon

/-- Separable parts are split where they were joined. -/
theorem splitParts_eq (h : Separable nick ident) (host : List Char) :
    splitParts (nick ++ written ident host) = (nick, ident, host) := by
  obtain ⟨hTake, hDrop⟩ := takeWhile_written ident host
  rw [Hostmask.splitParts_eq, dropWhile_colon (h.head?_append host),
    List.takeWhile_append_of_pos h.inNick, List.dropWhile_append_of_pos h.inNick, hTake, hDrop,
    List.append_nil, details_written h.identNoAt]

/-- Joining loses nothing of separable parts, whatever the host is. -/
theorem ofString_join {nick ident : String} (h : Separable nick.toList ident.toList)
    (host : String) : ofString (join nick ident host) = ⟨nick, ident, host⟩ := by
  simp [ofString, toList_join, h.splitParts_eq]

end Separable

/-- A user name is read up to the first at sign, so it has none. -/
theorem at_not_mem_details (s : List Char) : '@' ∉ (details s).1 := by
  unfold details
  split
  · simp
  · simp
  next c rest hHost =>
    cases hCut : Text.cut '@' rest with
    | none => exact Text.cut_eq_none_iff.mp hCut
    | some p => exact (Text.cut_eq_some_iff.mp hCut).2

/-- No separator cuts short the parts of a source. -/
theorem separable_splitParts (raw : List Char) :
    Separable (splitParts raw).1 (splitParts raw).2.1 := by
  rw [splitParts_eq]
  constructor
  case noBang => exact fun hIn => absurd (List.mem_takeWhile_imp hIn) (by decide)
  case noAt => exact fun hIn => absurd (List.mem_takeWhile_imp hIn) (by decide)
  case noColon =>
    intro hColon
    have hHead := List.head?_dropWhile_not (· == ':') raw
    rw [List.head?_takeWhile, Option.filter_eq_some_iff] at hColon
    rw [hColon.1] at hHead
    exact absurd hHead (by decide)
  case identNoAt => exact at_not_mem_details _

/-- What a source is split into can be joined again. -/
theorem separable_ofString (raw : String) :
    Separable (ofString raw).nick.toList (ofString raw).ident.toList := by
  simpa [ofString] using separable_splitParts raw.toList

/-- The nickname stands in the source as it is. -/
theorem nickOf_infix (raw : String) : (nickOf raw).toList <:+: raw.toList := by
  rw [nickOf, String.toList_ofList, splitParts_fst]
  exact (List.takeWhile_prefix _).isInfix.trans (List.dropWhile_suffix _).isInfix

/-- A nickname has no leading colon and neither of the marks that would end it. -/
@[simp] theorem nickOf_nickOf (raw : String) : nickOf (nickOf raw) = nickOf raw := by
  have hParts := separable_splitParts raw.toList
  have hAlone : Separable (splitParts raw.toList).1 [] :=
    ⟨hParts.noBang, hParts.noAt, hParts.noColon, List.not_mem_nil⟩
  have hSplit := hAlone.splitParts_eq []
  rw [show written [] [] = [] from rfl, List.append_nil] at hSplit
  rw [nickOf, nickOf, String.toList_ofList, hSplit]

/-- The parts of a source come back when they are joined and split, and its nickname comes back
alone. Any other parts come back exactly if no separator cuts them short. -/
theorem splits_what_it_joins :
    (∀ raw, ofString (join (ofString raw).nick (ofString raw).ident (ofString raw).host) =
      ofString raw) ∧
    (∀ raw, nickOf (nickOf raw) = nickOf raw) ∧
    ∀ nick ident host, ofString (join nick ident host) = ⟨nick, ident, host⟩ ↔
      Separable nick.toList ident.toList := by
  refine ⟨fun raw => (separable_ofString raw).ofString_join _, nickOf_nickOf, ?_⟩
  intro nick ident host
  constructor
  · intro hBack
    have hParts := separable_ofString (join nick ident host)
    rwa [hBack] at hParts
  · exact fun h => h.ofString_join host

end Hostmask

/-- A separator comes of no other character, and stays what it is. -/
theorem CaseMapping.foldChar_eq_mark_iff (m : CaseMapping) {mark : Char}
    (h : mark ∈ [':', '!', '@']) (c : Char) : m.foldChar c = mark ↔ c = mark := by
  induction c using char_induction with
  | ascii n =>
      simp only [List.mem_cons, List.not_mem_nil, or_false] at h
      rcases h with rfl | rfl | rfl <;> cases m <;> revert n <;> decide
  | other c hc => rw [foldChar_of_le m hc]

/-- Cutting at a mark does not see changes that neither make nor unmake such a mark. -/
theorem Text.cut_map {f : Char → Char} {mark : Char} (h : ∀ c, f c = mark ↔ c = mark)
    (s : List Char) :
    cut mark (s.map f) = (cut mark s).map (Prod.map (List.map f) (List.map f)) := by
  induction s with
  | nil => rfl
  | cons c rest ih =>
      by_cases hc : c = mark
      · simp [cut, h, hc]
      · simp [cut, h, hc, ih, Function.comp_def]

namespace Hostmask

def fold (m : CaseMapping) (mask : Hostmask) : Hostmask :=
  ⟨m.fold mask.nick, m.fold mask.ident, m.fold mask.host⟩

variable (m : CaseMapping)

/-- Folding leaves the marks where they are, so the details may be folded before or after they are
read. -/
theorem details_map (s : List Char) :
    details (s.map m.foldChar) =
      Prod.map (List.map m.foldChar) (List.map m.foldChar) (details s) := by
  have hAt : ∀ c, m.foldChar c = '@' ↔ c = '@' := m.foldChar_eq_mark_iff (by simp)
  cases s with
  | nil => rfl
  | cons c rest =>
      by_cases hc : c = '@'
      · simp [details, hc, (hAt '@').mpr rfl]
      · have hFolded : m.foldChar c ≠ '@' := fun he => hc ((hAt c).mp he)
        rw [List.map_cons, details, details, Text.cut_map hAt]
        · cases Text.cut '@' rest <;> rfl
        · exact hc
        · exact hFolded

/-- Splitting a folded source gives the folded parts of the source. -/
theorem splitParts_map (s : List Char) :
    splitParts (s.map m.foldChar) = ((splitParts s).1.map m.foldChar,
      (splitParts s).2.1.map m.foldChar, (splitParts s).2.2.map m.foldChar) := by
  have hSame : ∀ mark ∈ [':', '!', '@'], ∀ c, (m.foldChar c == mark) = (c == mark) := by
    intro mark hMark c
    rw [Bool.eq_iff_iff, beq_iff_eq, beq_iff_eq]
    exact m.foldChar_eq_mark_iff hMark c
  have hColon : (· == ':') ∘ m.foldChar = (· == ':') := by
    funext c
    exact hSame ':' (by simp) c
  have hNick : inNick ∘ m.foldChar = inNick := by
    funext c
    simp only [Function.comp_apply, inNick, bne, hSame '!' (by simp), hSame '@' (by simp)]
  rw [splitParts_eq, splitParts_eq, List.dropWhile_map, hColon, List.takeWhile_map,
    List.dropWhile_map, hNick, details_map]
  rfl

/-- Folding neither makes nor removes a separator, so the parts of a folded source are the folded
parts of the source. -/
theorem ofString_fold (raw : String) : ofString (m.fold raw) = (ofString raw).fold m := by
  simp [ofString, fold, CaseMapping.fold, Text.mapChars, splitParts_map]

end Hostmask

/-- Sources that fold alike have nicknames that fold alike. -/
theorem CaseMapping.fold_nickOf_congr {m : CaseMapping} {a b : String} (h : m.fold a = m.fold b) :
    m.fold (Hostmask.nickOf a) = m.fold (Hostmask.nickOf b) := by
  have hSplit : ∀ raw, m.fold (Hostmask.nickOf raw) = Hostmask.nickOf (m.fold raw) := by
    intro raw
    exact (congrArg Hostmask.nick (Hostmask.ofString_fold m raw)).symm
  rw [hSplit, hSplit, h]

/-- Folding keeps the length, so a text is looked up under its own fold only if all of it is a
nickname. -/
theorem CaseMapping.fold_nickOf_iff (m : CaseMapping) (s : String) :
    m.fold (Hostmask.nickOf s) = m.fold s ↔ Hostmask.nickOf s = s := by
  constructor
  · intro hFold
    rw [CaseMapping.fold_eq_fold_iff] at hFold
    have hLength := congrArg List.length hFold
    rw [List.length_map, List.length_map] at hLength
    exact String.toList_inj.mp ((Hostmask.nickOf_infix s).eq_of_length hLength)
  · exact congrArg m.fold

/-- The sender of a line is named by a plain nickname, and by the empty one if there is none. -/
@[simp] theorem Line.nickOf_source (line : Line) :
    Hostmask.nickOf line.source.nick = line.source.nick := by
  unfold Line.source
  cases line.source? with
  | none => rfl
  | some mask => exact Hostmask.nickOf_nickOf mask

end Irc
