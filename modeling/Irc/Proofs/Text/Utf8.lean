import Irc.Text.Utf8
import Mathlib.Data.List.Basic
/-! Reading the encoding of a text gives the text back. The encoding of a character is one byte that
says how many more there are, and after it six bits in each of these; the reader takes every one of
them and settles the character at the last. -/
namespace Irc.Text.Utf8

theorem toNat_ofNat {n : Nat} (h : n < 256) : (UInt8.ofNat n).toNat = n :=
  UInt8.toNat_ofNat_of_lt' h

/-- A byte after the first, with six bits of the character. -/
def tail (bits : Nat) : UInt8 := UInt8.ofNat (bits % 64 + 0x80)

theorem toNat_tail (bits : Nat) : (tail bits).toNat = bits % 64 + 0x80 := by
  have hBits : bits % 64 < 64 := Nat.mod_lt _ (by decide)
  exact toNat_ofNat (by omega)

section Tail

variable {low high : UInt8} {settled bits : Nat}

def InRange (low high : UInt8) (bits : Nat) : Prop :=
  low.toNat ≤ bits % 64 + 0x80 ∧ bits % 64 + 0x80 ≤ high.toNat

theorem inRange_free (bits : Nat) : InRange 0x80 0xBF bits := by
  have hBits : bits % 64 < 64 := Nat.mod_lt _ (by decide)
  exact ⟨Nat.le_add_left _ _, show _ ≤ 0xBF by omega⟩

/-- Six bits that are in the range stay between its bounds when they are encoded. -/
theorem InRange.le (h : InRange low high bits) : low ≤ tail bits ∧ tail bits ≤ high := by
  rw [UInt8.le_iff_toNat_le, UInt8.le_iff_toNat_le, toNat_tail]
  exact h

/-- The last byte of a character settles it. -/
theorem decodeFrom_last (h : InRange low high bits) (rest : List UInt8) :
    decodeFrom (some ⟨1, settled, low, high⟩) (tail bits :: rest) =
      Char.ofNat (settled * 64 + bits % 64) :: decodeFrom none rest := by
  simp only [decodeFrom, step, if_pos h.le, toNat_tail, Nat.add_sub_cancel, Nat.le_refl, if_true,
    List.cons_append, List.nil_append]

/-- A byte that is not the last one adds its six bits, and leaves every next byte possible. -/
theorem decodeFrom_more (h : InRange low high bits) (k : Nat) (rest : List UInt8) :
    decodeFrom (some ⟨k + 2, settled, low, high⟩) (tail bits :: rest) =
      decodeFrom (some ⟨k + 1, settled * 64 + bits % 64, 0x80, 0xBF⟩) rest := by
  have hMore : ¬k + 2 ≤ 1 := by omega
  simp only [decodeFrom, step, if_pos h.le, toNat_tail, Nat.add_sub_cancel, if_neg hMore,
    List.nil_append]
  rfl

end Tail

theorem decodeFrom_start {b : UInt8} {p : Pending} (h : start b = ([], some p))
    (rest : List UInt8) : decodeFrom none (b :: rest) = decodeFrom (some p) rest := by
  rw [decodeFrom, step, h]
  rfl

/-- The first bytes of the encodings of two bytes. -/
theorem start_of_two : ∀ k < 32, 2 ≤ k →
    start (UInt8.ofNat (k + 0xC0)) = ([], some ⟨1, k, 0x80, 0xBF⟩) := by decide

/-- The first bytes of the encodings of three bytes, with the bounds that keep out overlong
encodings and surrogates. -/
theorem start_of_three : ∀ k < 16, start (UInt8.ofNat (k + 0xE0)) =
    ([], some ⟨2, k, if k = 0 then 0xA0 else 0x80, if k = 0xD then 0x9F else 0xBF⟩) := by decide

/-- The first bytes of the encodings of four bytes, with the bounds that keep out overlong encodings
and what is past the last character. -/
theorem start_of_four : ∀ k < 5, start (UInt8.ofNat (k + 0xF0)) =
    ([], some ⟨3, k, if k = 0 then 0x90 else 0x80, if k = 4 then 0x8F else 0xBF⟩) := by decide

section Lengths

variable {n : Nat}

theorem decodeFrom_one (h : n ≤ 0x7F) (rest : List UInt8) :
    decodeFrom none (UInt8.ofNat n :: rest) = Char.ofNat n :: decodeFrom none rest := by
  have hStart : start (UInt8.ofNat n) = ([Char.ofNat n], none) := by
    simp only [start, toNat_ofNat (show n < 256 by omega)]
    exact if_pos (by omega)
  rw [decodeFrom, step, hStart]
  rfl

theorem decodeFrom_two (hMore : 0x7F < n) (h : n ≤ 0x7FF) (rest : List UInt8) :
    decodeFrom none (UInt8.ofNat (n / 64 % 32 + 0xC0) :: tail n :: rest) =
      Char.ofNat n :: decodeFrom none rest := by
  have hAll : n / 64 % 32 * 64 + n % 64 = n := by omega
  rw [decodeFrom_start (start_of_two (n / 64 % 32) (by omega) (by omega)),
    decodeFrom_last (inRange_free n), hAll]

theorem decodeFrom_three (hMore : 0x7FF < n) (h : n ≤ 0xFFFF) (hValid : n < 0xD800 ∨ 0xDFFF < n)
    (rest : List UInt8) :
    decodeFrom none (UInt8.ofNat (n / 4096 % 16 + 0xE0) :: tail (n / 64) :: tail n :: rest) =
      Char.ofNat n :: decodeFrom none rest := by
  have hAll : (n / 4096 % 16 * 64 + n / 64 % 64) * 64 + n % 64 = n := by omega
  -- no character is written longer than need be, and none is a surrogate
  have hRange : InRange (if n / 4096 % 16 = 0 then 0xA0 else 0x80)
      (if n / 4096 % 16 = 0xD then 0x9F else 0xBF) (n / 64) := by
    constructor
    · by_cases hLow : n / 4096 % 16 = 0
      · rw [if_pos hLow]
        exact show 0xA0 ≤ _ by omega
      · rw [if_neg hLow]
        exact show 0x80 ≤ _ by omega
    · by_cases hHigh : n / 4096 % 16 = 0xD
      · rw [if_pos hHigh]
        exact show _ ≤ 0x9F by omega
      · rw [if_neg hHigh]
        exact show _ ≤ 0xBF by omega
  rw [decodeFrom_start (start_of_three (n / 4096 % 16) (by omega)), decodeFrom_more hRange 0,
    decodeFrom_last (inRange_free n), hAll]

theorem decodeFrom_four (hMore : 0xFFFF < n) (h : n < 0x110000) (rest : List UInt8) :
    decodeFrom none (UInt8.ofNat (n / 262144 % 8 + 0xF0) :: tail (n / 4096) :: tail (n / 64) ::
        tail n :: rest) =
      Char.ofNat n :: decodeFrom none rest := by
  have hAll : ((n / 262144 % 8 * 64 + n / 4096 % 64) * 64 + n / 64 % 64) * 64 + n % 64 = n := by
    omega
  -- no character is written longer than need be, and none is past the last one
  have hRange : InRange (if n / 262144 % 8 = 0 then 0x90 else 0x80)
      (if n / 262144 % 8 = 4 then 0x8F else 0xBF) (n / 4096) := by
    constructor
    · by_cases hLow : n / 262144 % 8 = 0
      · rw [if_pos hLow]
        exact show 0x90 ≤ _ by omega
      · rw [if_neg hLow]
        exact show 0x80 ≤ _ by omega
    · by_cases hHigh : n / 262144 % 8 = 4
      · rw [if_pos hHigh]
        exact show _ ≤ 0x8F by omega
      · rw [if_neg hHigh]
        exact show _ ≤ 0xBF by omega
  rw [decodeFrom_start (start_of_four (n / 262144 % 8) (by omega)), decodeFrom_more hRange 1,
    decodeFrom_more (inRange_free (n / 64)) 0, decodeFrom_last (inRange_free n), hAll]

end Lengths

/-- The bytes of a character by the length of its encoding. -/
theorem encodeChar_eq (c : Char) :
    String.utf8EncodeChar c =
      if c.toNat ≤ 0x7F then [UInt8.ofNat c.toNat]
      else if c.toNat ≤ 0x7FF then [UInt8.ofNat (c.toNat / 64 % 32 + 0xC0), tail c.toNat]
      else if c.toNat ≤ 0xFFFF then
        [UInt8.ofNat (c.toNat / 4096 % 16 + 0xE0), tail (c.toNat / 64), tail c.toNat]
      else
        [UInt8.ofNat (c.toNat / 262144 % 8 + 0xF0), tail (c.toNat / 4096), tail (c.toNat / 64),
          tail c.toNat] := rfl

/-- One character is read back, whatever follows it. -/
theorem decodeFrom_encodeChar (c : Char) (rest : List UInt8) :
    decodeFrom none (String.utf8EncodeChar c ++ rest) = c :: decodeFrom none rest := by
  have hValid : c.toNat < 0xD800 ∨ 0xDFFF < c.toNat ∧ c.toNat < 0x110000 := c.valid
  have hChar : Char.ofNat c.toNat = c := Char.ofNat_toNat c
  rw [encodeChar_eq]
  by_cases hOne : c.toNat ≤ 0x7F
  · rw [if_pos hOne]
    exact (decodeFrom_one hOne rest).trans (by rw [hChar])
  by_cases hTwo : c.toNat ≤ 0x7FF
  · rw [if_neg hOne, if_pos hTwo]
    exact (decodeFrom_two (by omega) hTwo rest).trans (by rw [hChar])
  by_cases hThree : c.toNat ≤ 0xFFFF
  · rw [if_neg hOne, if_neg hTwo, if_pos hThree]
    exact (decodeFrom_three (by omega) hThree (by omega) rest).trans (by rw [hChar])
  · rw [if_neg hOne, if_neg hTwo, if_neg hThree]
    exact (decodeFrom_four (by omega) (by omega) rest).trans (by rw [hChar])

/-- A byte below 0x80 is a character of its own. -/
theorem toNat_eq_of_mem_encodeChar {c : Char} {b : UInt8} (h : b ∈ String.utf8EncodeChar c)
    (hb : b.toNat < 0x80) : c.toNat = b.toNat := by
  have hTail : ∀ bits, b ≠ tail bits := by
    rintro bits rfl
    rw [toNat_tail] at hb
    omega
  have hStart : ∀ n, 0x80 ≤ n → n < 0x100 → b ≠ UInt8.ofNat n := by
    rintro n hLow hHigh rfl
    rw [toNat_ofNat hHigh] at hb
    omega
  rw [encodeChar_eq] at h
  by_cases hOne : c.toNat ≤ 0x7F
  · rw [if_pos hOne, List.mem_singleton] at h
    rw [h, toNat_ofNat (by omega)]
  by_cases hTwo : c.toNat ≤ 0x7FF
  · rw [if_neg hOne, if_pos hTwo] at h
    simp only [List.mem_cons, List.not_mem_nil, or_false, hTail] at h
    exact absurd h (hStart _ (by omega) (by omega))
  by_cases hThree : c.toNat ≤ 0xFFFF
  · rw [if_neg hOne, if_neg hTwo, if_pos hThree] at h
    simp only [List.mem_cons, List.not_mem_nil, or_false, hTail] at h
    exact absurd h (hStart _ (by omega) (by omega))
  · rw [if_neg hOne, if_neg hTwo, if_neg hThree] at h
    simp only [List.mem_cons, List.not_mem_nil, or_false, hTail] at h
    exact absurd h (hStart _ (by omega) (by omega))

/-- A byte that is an ASCII character stands for this character, and is no part of another one. -/
theorem not_mem_encode {c : Char} (hc : c.toNat < 0x80) {s : List Char} (h : c ∉ s) :
    UInt8.ofNat c.toNat ∉ encode s := by
  intro hMem
  obtain ⟨d, hd, hByte⟩ := List.mem_flatMap.mp hMem
  have hSame := toNat_eq_of_mem_encodeChar hByte (by rwa [toNat_ofNat (by omega)])
  rw [toNat_ofNat (by omega)] at hSame
  have hChar : d = c := Char.toNat_inj.mp hSame
  exact h (hChar ▸ hd)

theorem encode_append (s s' : List Char) : encode (s ++ s') = encode s ++ encode s' :=
  List.flatMap_append

/-- A text is read back from its encoding, whatever is in it. -/
theorem decode_encode (s : List Char) : decode (encode s) = s := by
  induction s with
  | nil => rfl
  | cons c rest ih =>
      rw [encode, List.flatMap_cons, decode, decodeFrom_encodeChar]
      exact congrArg (c :: ·) ih

end Irc.Text.Utf8
