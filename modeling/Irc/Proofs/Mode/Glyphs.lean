import Mathlib.Data.List.Nodup
import Irc.Proofs.Mode.Letters
/-! Glyphs that can be told apart. Where each status has a letter and a glyph of its own, the glyphs
of a mask are those of its bits, the highest first, and each glyph stands for one bit. -/
namespace Irc

namespace ModeMask

def ofBits (bits : List (Fin 64)) : ModeMask := bits.foldl (fun m bit => m.set bit true) none

/-- Setting bits one by one adds them to those that are set. -/
theorem has_foldl_set (bits : List (Fin 64)) (m : ModeMask) (bit : Fin 64) :
    (bits.foldl (fun m bit => m.set bit true) m).has bit = true ↔
      bit ∈ bits ∨ m.has bit = true := by
  induction bits generalizing m with
  | nil => simp
  | cons first rest ih =>
      rw [List.foldl_cons, ih, has_set, List.mem_cons]
      by_cases hFirst : bit = first <;> simp [hFirst]

theorem has_ofBits (bits : List (Fin 64)) (bit : Fin 64) :
    (ofBits bits).has bit = true ↔ bit ∈ bits := by
  have hNone : none.has bit = false := by simp [none, has]
  simp [ofBits, has_foldl_set, hNone]

theorem has_and (m m' : ModeMask) (bit : Fin 64) :
    (m &&& m').has bit = true ↔ m.has bit = true ∧ m'.has bit = true := by
  simp [has]

end ModeMask

namespace ModeTable

variable {t : ModeTable} {glyph letter : Char} {bit : Fin 64}

def statusMask (t : ModeTable) : ModeMask :=
  .ofBits (t.statuses.filterMap fun status => t.statusBit? status.1)

/-- The glyph shows the status that has the bit. -/
def Marks (t : ModeTable) (glyph : Char) (bit : Fin 64) : Prop :=
  ∃ letter, t.kind? letter = some (.status bit glyph)

/-- A server's table in which no two statuses share a letter or a glyph and every glyph can be
seen. -/
structure Legible (t : ModeTable) : Prop where
  ofAServer : t.OfAServer
  letters : (t.statuses.map Prod.fst).Nodup
  glyphs : (t.statuses.map Prod.snd).Nodup
  visible : ∀ status ∈ t.statuses, Text.isBlank status.2 = false

/-- In the table of a server, a letter is a status by its last place, and its bit counts the
statuses after it. -/
theorem OfAServer.kind?_eq_status_iff (h : t.OfAServer) :
    t.kind? letter = some (.status bit glyph) ↔
      ∃ i, LastAt t.statuses letter glyph i ∧ bit.val = t.statuses.length - 1 - i := by
  obtain ⟨channel, statuses, userModes, rfl, _, hNone⟩ := h.complete_eq
  exact kind?_complete_eq_status_iff hNone statuses userModes

namespace Legible

/-- Every status has the bit that counts the statuses after it. -/
theorem kind?_eq_status_iff (h : t.Legible) :
    t.kind? letter = some (.status bit glyph) ↔
      ∃ i, t.statuses[i]? = some (letter, glyph) ∧ bit.val = t.statuses.length - 1 - i := by
  rw [h.ofAServer.kind?_eq_status_iff]
  refine exists_congr fun i => and_congr_left fun _ => ?_
  refine ⟨And.left, fun hHere => ⟨hHere, fun j status hLater hThere hLetter => ?_⟩⟩
  have hSame : (t.statuses.map Prod.fst)[i]? = (t.statuses.map Prod.fst)[j]? := by
    simp [hHere, hThere, hLetter]
  have hLength : i < (t.statuses.map Prod.fst).length := by
    simpa using (List.getElem?_eq_some_iff.mp hHere).1
  have hPlace := (List.getElem?_inj hLength h.letters).mp hSame
  omega

/-- An announced status is one of the table. -/
theorem kind?_of_mem (h : t.Legible) (hIn : (letter, glyph) ∈ t.statuses) :
    ∃ bit, t.kind? letter = some (.status bit glyph) := by
  obtain ⟨i, hi⟩ := List.mem_iff_getElem?.mp hIn
  have hLength : t.statuses.length ≤ 64 := by
    obtain ⟨channel, statuses, userModes, rfl, _⟩ := h.ofAServer.complete_eq
    exact List.length_take_le 64 statuses
  have hPlace := (List.getElem?_eq_some_iff.mp hi).1
  exact ⟨⟨t.statuses.length - 1 - i, by omega⟩, h.kind?_eq_status_iff.mpr ⟨i, hi, rfl⟩⟩

/-- The table has no other statuses than those announced. -/
theorem mem_of_kind? (h : t.Legible) (hKind : t.kind? letter = some (.status bit glyph)) :
    (letter, glyph) ∈ t.statuses := by
  obtain ⟨i, hi, _⟩ := h.kind?_eq_status_iff.mp hKind
  exact List.mem_of_getElem? hi

theorem statusBit?_of_mem (h : t.Legible) (hIn : (letter, glyph) ∈ t.statuses) :
    t.statusBit? letter = some bit ↔ t.kind? letter = some (.status bit glyph) := by
  obtain ⟨bit', hKind⟩ := h.kind?_of_mem hIn
  simp [statusBit?, hKind]

/-- Where the glyphs differ, each leads to its own letter. -/
theorem letterOfGlyph?_eq_some_iff (h : t.Legible) :
    t.letterOfGlyph? glyph = some letter ↔ (letter, glyph) ∈ t.statuses := by
  unfold letterOfGlyph?
  constructor
  · intro hLetter
    obtain ⟨⟨_, glyph'⟩, hFound, rfl⟩ := Option.map_eq_some_iff.mp hLetter
    obtain rfl : glyph' = glyph := by simpa using List.find?_some hFound
    exact List.mem_of_find?_eq_some hFound
  · intro hIn
    cases hFind : t.statuses.find? (·.2 == glyph) with
    | none => simpa using List.find?_eq_none.mp hFind _ hIn
    | some status =>
        have hGlyph : status.2 = glyph := by simpa using List.find?_some hFind
        have hThere := List.mem_of_find?_eq_some hFind
        rw [List.inj_on_of_nodup_map h.glyphs hThere hIn hGlyph, Option.map_some]

/-- A glyph is read as the bit that it stands for. -/
theorem glyphBit?_eq_some_iff (h : t.Legible) :
    t.glyphBit? glyph = some bit ↔ t.Marks glyph bit := by
  simp only [glyphBit?, Option.bind_eq_some_iff, h.letterOfGlyph?_eq_some_iff]
  constructor
  · rintro ⟨letter, hIn, hBit⟩
    exact ⟨letter, (h.statusBit?_of_mem hIn).mp hBit⟩
  · rintro ⟨letter, hKind⟩
    have hIn := h.mem_of_kind? hKind
    exact ⟨letter, hIn, (h.statusBit?_of_mem hIn).mpr hKind⟩

/-- The glyphs of a mask are those of its bits. -/
theorem mem_glyphs_iff (h : t.Legible) (mask : ModeMask) :
    glyph ∈ t.glyphs mask ↔ ∃ bit, t.Marks glyph bit ∧ mask.has bit = true := by
  simp only [ModeTable.glyphs, List.mem_map, List.mem_filter, Option.any_eq_true]
  constructor
  · rintro ⟨⟨letter, glyph⟩, ⟨hIn, bit, hBit, hHas⟩, rfl⟩
    exact ⟨bit, ⟨letter, (h.statusBit?_of_mem hIn).mp hBit⟩, hHas⟩
  · rintro ⟨bit, ⟨letter, hKind⟩, hHas⟩
    have hIn := h.mem_of_kind? hKind
    exact ⟨(letter, glyph), ⟨hIn, bit, (h.statusBit?_of_mem hIn).mpr hKind, hHas⟩, rfl⟩

/-- The bit of a glyph tells its place from the end. -/
theorem val_of_marks (h : t.Legible) {i : Nat} {status : Char × Char}
    (hHere : t.statuses[i]? = some status) (hMarks : t.Marks status.2 bit) :
    bit.val = t.statuses.length - 1 - i := by
  obtain ⟨letter, hKind⟩ := hMarks
  obtain ⟨j, hThere, hBit⟩ := h.kind?_eq_status_iff.mp hKind
  have hSame : (t.statuses.map Prod.snd)[j]? = (t.statuses.map Prod.snd)[i]? := by
    simp [hHere, hThere]
  have hLength : j < (t.statuses.map Prod.snd).length := by
    simpa using (List.getElem?_eq_some_iff.mp hThere).1
  rw [← (List.getElem?_inj hLength h.glyphs).mp hSame]
  exact hBit

/-- They stand in the order of their bits, the highest first. -/
theorem pairwise_glyphs (h : t.Legible) (mask : ModeMask) :
    (t.glyphs mask).Pairwise fun glyph glyph' =>
      ∀ bit bit', t.Marks glyph bit → t.Marks glyph' bit' → bit' < bit := by
  unfold ModeTable.glyphs
  rw [List.pairwise_map]
  apply List.Pairwise.filter
  rw [List.pairwise_iff_getElem]
  intro i j hi hj hLess bit bit' hMarks hMarks'
  have hFirst := h.val_of_marks (List.getElem?_eq_getElem hi) hMarks
  have hSecond := h.val_of_marks (List.getElem?_eq_getElem hj) hMarks'
  rw [Fin.lt_def]
  omega

/-- The bits of the status mask are those that glyphs stand for. -/
theorem has_statusMask_iff (h : t.Legible) (bit : Fin 64) :
    t.statusMask.has bit = true ↔ ∃ glyph, t.Marks glyph bit := by
  simp only [statusMask, ModeMask.has_ofBits, List.mem_filterMap]
  constructor
  · rintro ⟨⟨letter, glyph⟩, hIn, hBit⟩
    exact ⟨glyph, letter, (h.statusBit?_of_mem hIn).mp hBit⟩
  · rintro ⟨glyph, letter, hKind⟩
    have hIn := h.mem_of_kind? hKind
    exact ⟨(letter, glyph), hIn, (h.statusBit?_of_mem hIn).mpr hKind⟩

end Legible

end ModeTable

end Irc
