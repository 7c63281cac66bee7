import Irc.Text.Pieces
import Mathlib.Data.List.Basic
/-! Joining and cutting. Parts that have no separator in them come back when a text that was joined
from them is cut at the separators. -/
namespace Irc.Text

/-- Cutting undoes joining if no part has a separator in it; there must be some part, since the
empty text is one empty piece. -/
theorem pieces_intercalate {p : Char → Bool} {c : Char} (hc : p c = true) {parts : List (List Char)}
    (hNonempty : parts ≠ []) (h : ∀ part ∈ parts, ∀ x ∈ part, p x = false) :
    pieces p ([c].intercalate parts) = parts := by
  induction parts with
  | nil => exact absurd rfl hNonempty
  | cons part rest ih =>
      obtain ⟨hPart, hRest⟩ := List.forall_mem_cons.mp h
      cases rest with
      | nil => simpa using pieces_eq_singleton hPart
      | cons next rest =>
          rw [List.intercalate_cons_cons, List.append_assoc, List.singleton_append,
            pieces_append_cons _ hPart hc, ih (List.cons_ne_nil next rest) hRest]

/-- Words come back from their text. -/
theorem words_intercalate {ws : List (List Char)}
    (h : ∀ w ∈ ws, w ≠ [] ∧ ∀ c ∈ w, isBlank c = false) : words ([' '].intercalate ws) = ws := by
  by_cases hNone : ws = []
  · subst hNone
    rfl
  · have hPieces : pieces isBlank ([' '].intercalate ws) = ws :=
      pieces_intercalate (by decide) hNone fun w hw => (h w hw).2
    rw [words, hPieces, List.filter_eq_self]
    intro w hw
    simpa using (h w hw).1

/-- A joined text has no characters but those of its parts and of the separator. -/
theorem mem_intercalate {c d : Char} {parts : List (List Char)} (h : c ∈ [d].intercalate parts) :
    c = d ∨ ∃ part ∈ parts, c ∈ part := by
  induction parts with
  | nil => cases h
  | cons part rest ih =>
      cases rest with
      | nil => exact .inr ⟨part, List.mem_cons_self, by simpa using h⟩
      | cons next rest =>
          rw [List.intercalate_cons_cons, List.append_assoc, List.mem_append] at h
          rcases h with hHere | hLater
          · exact .inr ⟨part, List.mem_cons_self, hHere⟩
          · rcases List.mem_cons.mp hLater with hMark | hLater
            · exact .inl hMark
            · refine (ih hLater).imp_right fun ⟨other, hIn, hc⟩ => ?_
              exact ⟨other, List.mem_cons_of_mem part hIn, hc⟩

end Irc.Text
