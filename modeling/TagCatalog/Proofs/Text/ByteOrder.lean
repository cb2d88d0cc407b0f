import TagCatalog.Text.Utf8

/-!
# The Order of UTF-8

Texts have the same order as their bytes.

Texts are compared character by character and characters by their code points, while a
party that only knows bytes compares those. UTF-8 was made so that the two agree. A
character of more bytes has a greater first byte, because the first byte tells how many
there are, and of two characters with equally many bytes the code points are numbers with
these bytes for digits, the highest digit in front.

So a smaller character is smaller in bytes whatever stands behind the two,
`encodeChar_append_lt`, and with equal characters in front the order is that of the rest.

## Theorems

* `byte_lt_byte_iff`: Bytes are compared as numbers.
* `encodeChar_append_lt`: A smaller character comes first whatever follows.
* `bytes_lt_of_lt`, `bytes_le_iff`: The order of texts is that of their bytes.
-/

namespace TagCatalog

namespace Utf8

theorem byte_lt_byte_iff {m n : Nat} (hm : m < 256) (hn : n < 256) :
    UInt8.ofNat m < UInt8.ofNat n ↔ m < n := by
  rw [UInt8.lt_iff_toNat_lt, UInt8.toNat_ofNat', UInt8.toNat_ofNat', Nat.mod_eq_of_lt hm,
    Nat.mod_eq_of_lt hn]

theorem byte_eq_byte_iff {m n : Nat} (hm : m < 256) (hn : n < 256) :
    UInt8.ofNat m = UInt8.ofNat n ↔ m = n := by
  rw [← UInt8.toNat_inj, UInt8.toNat_ofNat', UInt8.toNat_ofNat', Nat.mod_eq_of_lt hm,
    Nat.mod_eq_of_lt hn]

/-- The bytes of a character, by how many there are. -/
theorem encodeChar_cases (c : Char) :
    (c.toNat < 0x80 ∧ String.utf8EncodeChar c = [UInt8.ofNat c.toNat]) ∨
    (0x80 ≤ c.toNat ∧ c.toNat < 0x800 ∧ String.utf8EncodeChar c =
      [UInt8.ofNat (c.toNat / 64 + 0xC0), UInt8.ofNat (c.toNat % 64 + 0x80)]) ∨
    (0x800 ≤ c.toNat ∧ c.toNat < 0x10000 ∧ String.utf8EncodeChar c =
      [UInt8.ofNat (c.toNat / 4096 + 0xE0), UInt8.ofNat (c.toNat / 64 % 64 + 0x80),
        UInt8.ofNat (c.toNat % 64 + 0x80)]) ∨
    (0x10000 ≤ c.toNat ∧ c.toNat < 0x110000 ∧ String.utf8EncodeChar c =
      [UInt8.ofNat (c.toNat / 262144 + 0xF0), UInt8.ofNat (c.toNat / 4096 % 64 + 0x80),
        UInt8.ofNat (c.toNat / 64 % 64 + 0x80), UInt8.ofNat (c.toNat % 64 + 0x80)]) := by
  have hmax : c.toNat < 0x110000 := by
    have hc : c.toNat.isValidChar := c.valid
    simp only [Nat.isValidChar] at hc
    omega
  simp only [String.utf8EncodeChar, Char.toNat_val]
  by_cases h1 : c.toNat ≤ 0x7F
  · rw [if_pos h1]
    exact Or.inl ⟨by omega, rfl⟩
  · rw [if_neg h1]
    by_cases h2 : c.toNat ≤ 0x7FF
    · rw [if_pos h2, Nat.mod_eq_of_lt (by omega : c.toNat / 64 < 32)]
      exact Or.inr (Or.inl ⟨by omega, by omega, rfl⟩)
    · rw [if_neg h2]
      by_cases h3 : c.toNat ≤ 0xFFFF
      · rw [if_pos h3, Nat.mod_eq_of_lt (by omega : c.toNat / 4096 < 16)]
        exact Or.inr (Or.inr (Or.inl ⟨by omega, by omega, rfl⟩))
      · rw [if_neg h3, Nat.mod_eq_of_lt (by omega : c.toNat / 262144 < 8)]
        exact Or.inr (Or.inr (Or.inr ⟨by omega, hmax, rfl⟩))

/-- A smaller character comes first, whatever stands behind it and behind the other one. -/
theorem encodeChar_append_lt {c d : Char} (h : c < d) (xs ys : List UInt8) :
    String.utf8EncodeChar c ++ xs < String.utf8EncodeChar d ++ ys := by
  have hlt : c.toNat < d.toNat := h
  -- Characters of different lengths differ in the first byte, and those of one length in
  -- the highest digit that is not the same.
  rcases encodeChar_cases c with ⟨hc, h⟩ | ⟨hc, hc', h⟩ | ⟨hc, hc', h⟩ | ⟨hc, hc', h⟩ <;>
    rcases encodeChar_cases d with ⟨hd, h'⟩ | ⟨hd, hd', h'⟩ | ⟨hd, hd', h'⟩ | ⟨hd, hd', h'⟩ <;>
    rw [h, h'] <;>
    simp only [List.cons_append, List.nil_append, List.cons_lt_cons_iff] <;>
    simp (disch := omega) only [byte_lt_byte_iff, byte_eq_byte_iff] <;>
    omega

theorem bytes_lt_of_lt {cs ds : List Char} (h : cs < ds) : bytes cs < bytes ds := by
  induction h with
  | nil =>
    rw [bytes, bytes, List.flatMap_nil, List.flatMap_cons]
    rcases encodeChar_cases _ with ⟨_, h⟩ | ⟨_, _, h⟩ | ⟨_, _, h⟩ | ⟨_, _, h⟩ <;> rw [h] <;>
      exact List.nil_lt_cons _ _
  | rel h =>
    rw [bytes, bytes, List.flatMap_cons, List.flatMap_cons]
    exact encodeChar_append_lt h _ _
  | cons h ih =>
    rw [bytes, bytes, List.flatMap_cons, List.flatMap_cons]
    exact List.append_left_lt ih

/-- Texts are in order exactly if their bytes are. -/
theorem bytes_le_iff (s t : String) : bytes s.toList ≤ bytes t.toList ↔ s ≤ t := by
  rw [← List.not_lt, ← String.not_lt, String.lt_iff]
  refine ⟨fun h hlt => h (bytes_lt_of_lt hlt), fun h hlt => ?_⟩
  -- Texts that are not in this order are equal or in the other one.
  rcases List.le_iff_lt_or_eq.mp (List.not_lt.mp h) with hlt' | heq
  · exact List.lt_asymm hlt (bytes_lt_of_lt hlt')
  · rw [heq] at hlt
    exact List.lt_irrefl _ hlt

end Utf8

end TagCatalog
