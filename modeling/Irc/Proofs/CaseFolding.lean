import Irc.CaseMapping
import Mathlib.Data.String.Basic
/-! Folding under one mapping and then under another. Each mapping changes ASCII characters
only, so the facts about single characters are checked on ASCII and lifted to names. Folding
twice is folding once, and a coarser mapping forgets what a finer one has folded before. In the
other direction a folded name need not lead to the key of the name it came from. -/
namespace Irc.CaseMapping

/-- A statement about characters may be checked for ASCII apart from the rest. -/
theorem char_induction {P : Char → Prop} (ascii : ∀ n : Fin 128, P (Char.ofNat n))
    (other : ∀ c : Char, 128 ≤ c.toNat → P c) (c : Char) : P c := by
  by_cases h : c.toNat < 128
  · simpa using ascii ⟨c.toNat, h⟩
  · exact other c (by omega)

/-- Only ASCII letters have a lower case here. -/
theorem toLower_of_le {c : Char} (h : 128 ≤ c.toNat) : c.toLower = c := by
  refine dif_neg ?_
  rintro ⟨_, hUpper⟩
  have hLe : c.toNat ≤ 90 := hUpper
  omega

/-- No mapping touches a character beyond ASCII. -/
theorem foldChar_of_le (m : CaseMapping) {c : Char} (h : 128 ≤ c.toNat) : m.foldChar c = c := by
  unfold foldChar
  split
  case h_1 => exact toLower_of_le h
  case h_9 => exact toLower_of_le h
  all_goals exact absurd h (by decide)

/-- Folded characters are folded already. -/
theorem foldChar_idem (m : CaseMapping) (c : Char) :
    m.foldChar (m.foldChar c) = m.foldChar c := by
  induction c using char_induction with
  | ascii n => cases m <;> revert n <;> decide +kernel
  | other c h => rw [foldChar_of_le m h, foldChar_of_le m h]

/-- Names fold alike exactly if they do so character by character. -/
theorem fold_eq_fold_iff (m m' : CaseMapping) (s t : String) :
    m.fold s = m'.fold t ↔ s.toList.map m.foldChar = t.toList.map m'.foldChar := by
  rw [← String.toList_inj, toList_fold, toList_fold]

/-- A key is its own key. -/
@[simp] theorem fold_idem (m : CaseMapping) (s : String) : m.fold (m.fold s) = m.fold s := by
  rw [fold_eq_fold_iff, toList_fold, List.map_map]
  exact List.map_congr_left fun c _ => foldChar_idem m c

/-- The second mapping identifies more names than the first one. -/
def Coarsens (m m' : CaseMapping) : Prop :=
  (m, m') ∈ [(ascii, strictRfc1459), (ascii, rfc1459), (strictRfc1459, rfc1459)]

instance : DecidableRel Coarsens := fun _ _ => inferInstanceAs (Decidable (_ ∈ _))

/-- No mapping forgets what it has itself folded, so the finer one of two is another one. -/
theorem Coarsens.ne {m m' : CaseMapping} (h : m.Coarsens m') : m' ≠ m := by
  rintro rfl
  revert h
  cases m' <;> decide

/-- A coarser mapping makes of a folded character what it makes of the character itself. -/
theorem foldChar_foldChar_of_coarsens {m m' : CaseMapping} (h : m.Coarsens m') (c : Char) :
    m'.foldChar (m.foldChar c) = m'.foldChar c := by
  induction c using char_induction with
  | ascii n => revert h n; cases m <;> cases m' <;> decide +kernel
  | other c hc => rw [foldChar_of_le m hc]

/-- A coarser mapping gives a folded name the key of the name it came from. -/
theorem fold_fold_of_coarsens {m m' : CaseMapping} (h : m.Coarsens m') (s : String) :
    m'.fold (m.fold s) = m'.fold s := by
  rw [fold_eq_fold_iff, toList_fold, List.map_map]
  exact List.map_congr_left fun c _ => foldChar_foldChar_of_coarsens h c

/-- What two mappings have folded one after the other, the first one folds no further. -/
theorem foldChar_settled (m m' : CaseMapping) (c : Char) :
    m.foldChar (m'.foldChar (m.foldChar c)) = m'.foldChar (m.foldChar c) := by
  induction c using char_induction with
  | ascii n => revert n; cases m <;> cases m' <;> decide +kernel
  | other c h => simp only [foldChar_of_le _ h]

/-- Where folding back and forth leads to the same character, the order of two mappings does not
matter for it. -/
theorem foldChar_foldChar_of_settled (m m' : CaseMapping) (c : Char)
    (h : m.foldChar (m'.foldChar c) = m'.foldChar c) :
    m'.foldChar (m.foldChar c) = m'.foldChar c := by
  induction c using char_induction with
  | ascii n => revert n; cases m <;> cases m' <;> decide +kernel
  | other c hc => rw [foldChar_of_le m hc]

/-- If the key of a name is the refolded key of any name at all, then it is the refolded key of
that name itself. -/
theorem fold_fold_eq_of_fold_fold_eq {m m' : CaseMapping} {s t : String}
    (h : m'.fold (m.fold t) = m'.fold s) : m'.fold (m.fold s) = m'.fold s := by
  rw [fold_eq_fold_iff, toList_fold, List.map_map] at h ⊢
  refine List.map_congr_left fun c hc => foldChar_foldChar_of_settled m m' c ?_
  have hFolded : m'.foldChar c ∈ s.toList.map m'.foldChar := List.mem_map_of_mem hc
  rw [← h] at hFolded
  obtain ⟨d, _, hd⟩ := List.mem_map.mp hFolded
  rw [← hd]
  exact foldChar_settled m m' d

/-- Folding keeps the length of a character in bytes, so names that fold alike are equally long. -/
theorem utf8Size_foldChar (m : CaseMapping) (c : Char) : (m.foldChar c).utf8Size = c.utf8Size := by
  induction c using char_induction with
  | ascii n => cases m <;> revert n <;> decide +kernel
  | other c h => rw [foldChar_of_le m h]

/-- Names with equally many bytes fold alike if they do so as far as the shorter one goes. -/
theorem all_zip_foldChar_iff (m : CaseMapping) (s t : List Char) :
    (String.utf8Len s = String.utf8Len t ∧
      (s.zip t).all (fun p => m.foldChar p.1 == m.foldChar p.2) = true) ↔
    s.map m.foldChar = t.map m.foldChar := by
  induction s generalizing t with
  | nil =>
      cases t with
      | nil => simp
      | cons d t =>
          have hPos := d.utf8Size_pos
          simp only [String.utf8Len_nil, String.utf8Len_cons, List.map_nil, List.map_cons]
          constructor
          · omega
          · simp
  | cons c s ih =>
      cases t with
      | nil =>
          have hPos := c.utf8Size_pos
          simp
          omega
      | cons d t =>
          have hSize : m.foldChar c = m.foldChar d → c.utf8Size = d.utf8Size := by
            intro hFold
            have h := congrArg Char.utf8Size hFold
            rwa [utf8Size_foldChar, utf8Size_foldChar] at h
          simp only [String.utf8Len_cons, List.zip_cons_cons, List.all_cons, Bool.and_eq_true,
            beq_iff_eq, List.map_cons, List.cons.injEq, ← ih t]
          constructor
          · rintro ⟨hBytes, hFold, hRest⟩
            have hSame := hSize hFold
            exact ⟨hFold, by omega, hRest⟩
          · rintro ⟨hFold, hBytes, hRest⟩
            have hSame := hSize hFold
            exact ⟨by omega, hFold, hRest⟩

/-- Names are equal exactly if they are looked up under the same key. -/
theorem equal_iff (m : CaseMapping) (a b : String) : m.equal a b = true ↔ m.fold a = m.fold b := by
  rw [fold_eq_fold_iff, ← all_zip_foldChar_iff, ← String.utf8ByteSize_ofList,
    ← String.utf8ByteSize_ofList, String.ofList_toList, String.ofList_toList, equal,
    Bool.and_eq_true, beq_iff_eq]

end Irc.CaseMapping
