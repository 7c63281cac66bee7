import Irc.Text.Class
/-!
Cutting text at separators. Text is a list of characters here, and every function is
recursive on it: `cut_eq_some_iff` says what the two parts of a cut are, and
`pieces_append_cons` how the pieces of a longer text arise from its first one.
-/
namespace Irc.Text

/-- The parts before and after the first `c`. -/
def cut (c : Char) : List Char → Option (List Char × List Char)
  | [] => none
  | x :: rest => if x = c then some ([], rest) else (cut c rest).map fun p => (x :: p.1, p.2)

/-- The parts between the characters that satisfy `p`; one part if there are none. -/
def pieces (p : Char → Bool) : List Char → List (List Char)
  | [] => [[]]
  | x :: rest =>
    if p x then [] :: pieces p rest
    else match pieces p rest with
      | [] => [[x]]
      | first :: others => (x :: first) :: others

/-- The maximal parts without blanks. -/
def words (s : List Char) : List (List Char) := (pieces isBlank s).filter (!·.isEmpty)

/-- Leaves out the longest end all of whose characters satisfy `p`. -/
def trimEnd (p : Char → Bool) (s : List Char) : List Char := (s.reverse.dropWhile p).reverse

/-- Whether `pattern` stands somewhere in a text. -/
def occursIn (pattern : List Char) : List Char → Bool
  | [] => pattern.isEmpty
  | x :: rest => pattern.isPrefixOf (x :: rest) || occursIn pattern rest

theorem cut_eq_some_iff {c : Char} {s a b : List Char} :
    cut c s = some (a, b) ↔ s = a ++ c :: b ∧ c ∉ a := by
  induction s generalizing a with
  | nil => simp [cut]
  | cons x rest ih =>
    by_cases h : x = c
    · subst h
      cases a with
      | nil => simp [cut]
      | cons y a' =>
        simp only [cut, if_true, Option.some.injEq, Prod.mk.injEq, List.cons_append]
        constructor
        · intro hc; cases hc.1
        · rintro ⟨hs, hn⟩
          exact absurd (List.mem_cons.mpr (.inl (List.cons.inj hs).1)) hn
    · cases a with
      | nil => simp [cut, h]
      | cons y a' =>
        simp only [cut, h, if_false, Option.map_eq_some_iff, Prod.mk.injEq, Prod.exists,
          List.cons.injEq, List.cons_append]
        constructor
        · rintro ⟨a₁, b₁, hc, ⟨hy, ha⟩, hb⟩
          subst hy ha hb
          obtain ⟨hs, hn⟩ := ih.mp hc
          exact ⟨⟨rfl, hs⟩, by simp [hn, Ne.symm h]⟩
        · rintro ⟨⟨hy, hs⟩, hn⟩
          subst hy
          exact ⟨a', b, ih.mpr ⟨hs, fun hm => hn (List.mem_cons_of_mem _ hm)⟩, ⟨rfl, rfl⟩, rfl⟩

theorem cut_eq_none_iff {c : Char} {s : List Char} : cut c s = none ↔ c ∉ s := by
  induction s with
  | nil => simp [cut]
  | cons x rest ih =>
    by_cases h : x = c
    · simp [cut, h]
    · simp [cut, h, ih, Ne.symm h]

theorem pieces_append_cons {p : Char → Bool} {a : List Char} {c : Char} (s : List Char)
    (ha : ∀ x ∈ a, p x = false) (hc : p c = true) :
    pieces p (a ++ c :: s) = a :: pieces p s := by
  induction a with
  | nil => simp [pieces, hc]
  | cons x rest ih =>
    have hx := ha x (List.mem_cons_self ..)
    have hrest := ih fun y hy => ha y (List.mem_cons_of_mem _ hy)
    simp [pieces, hx, hrest]

theorem pieces_eq_singleton {p : Char → Bool} {s : List Char} (h : ∀ x ∈ s, p x = false) :
    pieces p s = [s] := by
  induction s with
  | nil => rfl
  | cons x rest ih =>
    have hx := h x (List.mem_cons_self ..)
    simp [pieces, hx, ih fun y hy => h y (List.mem_cons_of_mem _ hy)]

end Irc.Text
