import TagCatalog.Text.Utf8

/-!
# Reading Back UTF-8

Bytes that were written for a text are read as that text. The reader never
fails, so the statement needs no condition: whatever the characters are, no
replacement character is put in for them.

The proof goes character by character. `lead_two`, `lead_three` and
`lead_four` say what the first byte of a longer character opens; the bounds on
the second byte that the reader then keeps are met because a `Char` is never a
surrogate and never past the last code point. `decodeFrom_continue` reads one
byte that is owed.

## Theorems

* `decodeFrom_within`, `decodeFrom_continue`: Reading a byte that is owed.
* `decodeFrom_open`: Reading a first byte.
* `lead_two`, `lead_three`, `lead_four`: What a first byte opens.
* `decodeFrom_encodeChar`: A written character is read as itself.
* `decode_bytes`: A written text is read as itself.
* `decode_ne_nil`: Bytes are never read as nothing.
-/

namespace TagCatalog

namespace Utf8

theorem toNat_byte (n : Nat) (h : n < 256) : (UInt8.ofNat n).toNat = n := by
  rw [UInt8.toNat_ofNat']
  omega

/-- A first byte from `C2` to `DF` opens a character of two bytes. -/
theorem lead_two (n : Nat) (hlo : 0xC2 ≤ n) (hhi : n ≤ 0xDF) :
    lead (UInt8.ofNat n) = .opens ⟨0, n - 0xC0, 0x80, 0xBF⟩ := by
  have hn := toNat_byte n (by omega)
  simp only [lead, UInt8.le_iff_toNat_le, UInt8.lt_iff_toNat_lt, hn, UInt8.reduceToNat]
  rw [if_neg (by omega), if_neg (by omega), if_pos (by omega)]

/-- The first byte of a code point of three bytes leaves bounds that its
    second byte meets. Surrogates are the code points for which it would not. -/
theorem lead_three (v : Nat) (hlo : 0x800 ≤ v) (hhi : v ≤ 0xFFFF) (hv : v.isValidChar) :
    ∃ least greatest, lead (UInt8.ofNat (v / 4096 + 0xE0)) = .opens ⟨1, v / 4096, least, greatest⟩ ∧
      least ≤ UInt8.ofNat (v / 64 % 64 + 0x80) ∧ UInt8.ofNat (v / 64 % 64 + 0x80) ≤ greatest := by
  have hn := toNat_byte (v / 4096 + 0xE0) (by omega)
  have hs := toNat_byte (v / 64 % 64 + 0x80) (by omega)
  have hlead : ∀ b : UInt8, b.toNat = v / 4096 + 0xE0 →
      (b = 0xE0 ↔ v / 4096 = 0) ∧ (b = 0xED ↔ v / 4096 = 0xD) := by
    intro b hb
    simp only [← UInt8.toNat_inj, hb, UInt8.reduceToNat]
    omega
  have hE := hlead _ hn
  simp only [lead, UInt8.le_iff_toNat_le, UInt8.lt_iff_toNat_lt, hn, hs, UInt8.reduceToNat, hE.1,
    hE.2]
  rw [if_neg (by omega), if_neg (by omega), if_neg (by omega)]
  by_cases h0 : v / 4096 = 0
  · refine ⟨0xA0, 0xBF, by rw [if_pos h0, h0], ?_⟩
    simp only [UInt8.reduceToNat]
    omega
  · rw [if_neg h0]
    by_cases hD : v / 4096 = 0xD
    · refine ⟨0x80, 0x9F, by rw [if_pos hD, hD], ?_⟩
      simp only [UInt8.reduceToNat]
      simp only [Nat.isValidChar] at hv
      omega
    · refine ⟨0x80, 0xBF, ?_, ?_⟩
      · rw [if_neg hD, if_pos (by omega), Nat.add_sub_cancel]
      · simp only [UInt8.reduceToNat]
        omega

/-- The first byte of a code point of four bytes leaves bounds that its second
    byte meets. -/
theorem lead_four (v : Nat) (hlo : 0x10000 ≤ v) (hv : v.isValidChar) :
    ∃ least greatest,
      lead (UInt8.ofNat (v / 262144 + 0xF0)) = .opens ⟨2, v / 262144, least, greatest⟩ ∧
      least ≤ UInt8.ofNat (v / 4096 % 64 + 0x80) ∧
      UInt8.ofNat (v / 4096 % 64 + 0x80) ≤ greatest := by
  have hmax : v < 0x110000 := by
    simp only [Nat.isValidChar] at hv
    omega
  have hn := toNat_byte (v / 262144 + 0xF0) (by omega)
  have hs := toNat_byte (v / 4096 % 64 + 0x80) (by omega)
  have hlead : ∀ b : UInt8, b.toNat = v / 262144 + 0xF0 →
      b ≠ 0xE0 ∧ b ≠ 0xED ∧ (b = 0xF0 ↔ v / 262144 = 0) ∧ (b = 0xF4 ↔ v / 262144 = 4) := by
    intro b hb
    simp only [ne_eq, ← UInt8.toNat_inj, hb, UInt8.reduceToNat]
    omega
  have hE := hlead _ hn
  simp only [lead, UInt8.le_iff_toNat_le, UInt8.lt_iff_toNat_lt, hn, hs, UInt8.reduceToNat,
    if_neg hE.1, if_neg hE.2.1, hE.2.2.1, hE.2.2.2]
  rw [if_neg (by omega), if_neg (by omega), if_neg (by omega), if_neg (by omega)]
  by_cases h0 : v / 262144 = 0
  · refine ⟨0x90, 0xBF, by rw [if_pos h0, h0], ?_⟩
    simp only [UInt8.reduceToNat]
    omega
  · rw [if_neg h0]
    by_cases h4 : v / 262144 = 4
    · refine ⟨0x80, 0x8F, ?_, ?_⟩
      · rw [if_neg (by omega), if_pos h4, h4]
      · simp only [UInt8.reduceToNat]
        omega
    · refine ⟨0x80, 0xBF, ?_, ?_⟩
      · rw [if_pos (by omega), Nat.add_sub_cancel]
      · simp only [UInt8.reduceToNat]
        omega

theorem decodeFrom_within (p : Partial) (b : UInt8) (r : List UInt8) (hlo : p.least ≤ b)
    (hhi : b ≤ p.greatest) :
    decodeFrom (some p) (b :: r) =
      match p.owed with
      | 0 => Char.ofNat (p.value * 64 + (b.toNat - 0x80)) :: decodeFrom none r
      | owed + 1 => decodeFrom (some ⟨owed, p.value * 64 + (b.toNat - 0x80), 0x80, 0xBF⟩) r :=
  if_pos ⟨hlo, hhi⟩

/-- A byte that is owed and lies within the bounds is taken into the value. -/
theorem decodeFrom_continue (p : Partial) (n : Nat) (r : List UInt8) (hn : n < 64)
    (hlo : p.least ≤ UInt8.ofNat (n + 0x80)) (hhi : UInt8.ofNat (n + 0x80) ≤ p.greatest) :
    decodeFrom (some p) (UInt8.ofNat (n + 0x80) :: r) =
      match p.owed with
      | 0 => Char.ofNat (p.value * 64 + n) :: decodeFrom none r
      | owed + 1 => decodeFrom (some ⟨owed, p.value * 64 + n, 0x80, 0xBF⟩) r := by
  have hb := toNat_byte (n + 0x80) (by omega)
  rw [decodeFrom_within p _ r hlo hhi, hb, Nat.add_sub_cancel]

/-- A byte between two characters that opens one. -/
theorem decodeFrom_open (b : UInt8) (p : Partial) (r : List UInt8) (h : lead b = .opens p) :
    decodeFrom none (b :: r) = decodeFrom (some p) r := by
  rw [decodeFrom, h]

/-- The bounds on every byte after the second one. -/
theorem within_tail (n : Nat) (hn : n < 64) :
    (0x80 : UInt8) ≤ UInt8.ofNat (n + 0x80) ∧ UInt8.ofNat (n + 0x80) ≤ 0xBF := by
  have hb := toNat_byte (n + 0x80) (by omega)
  simp only [UInt8.le_iff_toNat_le, hb, UInt8.reduceToNat]
  omega

/-- A character that was written is read as itself, and reading goes on
    between characters. -/
theorem decodeFrom_encodeChar (c : Char) (r : List UInt8) :
    decodeFrom none (String.utf8EncodeChar c ++ r) = c :: decodeFrom none r := by
  have hv : c.toNat.isValidChar := c.valid
  have hmax : c.toNat < 0x110000 := by
    simp only [Nat.isValidChar] at hv
    omega
  simp only [String.utf8EncodeChar, Char.toNat_val]
  split
  · next h1 =>
    -- One byte is a character of its own.
    have hb := toNat_byte c.toNat (by omega)
    have hlead : lead (UInt8.ofNat c.toNat) = .whole c := by
      simp only [lead, UInt8.le_iff_toNat_le, hb, UInt8.reduceToNat]
      rw [if_pos (by omega), Char.ofNat_toNat]
    simp only [List.cons_append, List.nil_append, decodeFrom, hlead]
  split
  · next h1 h2 =>
    -- Two bytes: the second one ends the character.
    have hlead := lead_two (c.toNat / 64 + 0xC0) (by omega) (by omega)
    have htail := within_tail (c.toNat % 64) (by omega)
    have hval : c.toNat / 64 * 64 + c.toNat % 64 = c.toNat := by omega
    rw [Nat.mod_eq_of_lt (by omega : c.toNat / 64 < 0x20)]
    simp only [List.cons_append, List.nil_append]
    rw [decodeFrom_open _ _ _ hlead, Nat.add_sub_cancel,
      decodeFrom_continue _ _ _ (by omega) htail.1 htail.2]
    simp only [hval, Char.ofNat_toNat]
  split
  · next h1 h2 h3 =>
    -- Three bytes: the bounds on the second one depend on the first.
    rcases lead_three c.toNat (by omega) h3 hv with ⟨least, greatest, hlead, hlo, hhi⟩
    have htail := within_tail (c.toNat % 64) (by omega)
    have hval : (c.toNat / 4096 * 64 + c.toNat / 64 % 64) * 64 + c.toNat % 64 = c.toNat := by
      omega
    rw [Nat.mod_eq_of_lt (by omega : c.toNat / 4096 < 0x10)]
    simp only [List.cons_append, List.nil_append]
    rw [decodeFrom_open _ _ _ hlead, decodeFrom_continue _ _ _ (by omega) hlo hhi]
    simp only []
    rw [decodeFrom_continue _ _ _ (by omega) htail.1 htail.2]
    simp only [hval, Char.ofNat_toNat]
  · next h1 h2 h3 =>
    -- Four bytes: the same, with one more byte behind.
    rcases lead_four c.toNat (by omega) hv with ⟨least, greatest, hlead, hlo, hhi⟩
    have hthird := within_tail (c.toNat / 64 % 64) (by omega)
    have htail := within_tail (c.toNat % 64) (by omega)
    have hval : ((c.toNat / 262144 * 64 + c.toNat / 4096 % 64) * 64 + c.toNat / 64 % 64) * 64 +
        c.toNat % 64 = c.toNat := by
      omega
    rw [Nat.mod_eq_of_lt (by omega : c.toNat / 262144 < 0x08)]
    simp only [List.cons_append, List.nil_append]
    rw [decodeFrom_open _ _ _ hlead, decodeFrom_continue _ _ _ (by omega) hlo hhi]
    simp only []
    rw [decodeFrom_continue _ _ _ (by omega) hthird.1 hthird.2]
    simp only []
    rw [decodeFrom_continue _ _ _ (by omega) htail.1 htail.2]
    simp only [hval, Char.ofNat_toNat]

/-- A text that was written is read as itself. -/
theorem decode_bytes (cs : List Char) : decode (bytes cs) = cs := by
  induction cs with
  | nil => rfl
  | cons c r ih =>
    unfold decode bytes at ih ⊢
    rw [List.flatMap_cons, decodeFrom_encodeChar, ih]

/-- Whatever has been read of a character, the text that comes of it is not
    empty. -/
theorem decodeFrom_ne_nil (state : Option Partial) (bs : List UInt8)
    (h : state.isSome ∨ bs ≠ []) : decodeFrom state bs ≠ [] := by
  induction bs generalizing state with
  | nil =>
    cases state with
    | none => simp at h
    | some p => simp [decodeFrom]
  | cons b r ih =>
    cases state with
    | none =>
      unfold decodeFrom
      split
      · exact List.cons_ne_nil _ _
      · exact ih _ (Or.inl rfl)
      · exact List.cons_ne_nil _ _
    | some p =>
      -- A byte that does not fit leaves a replacement character at once.
      unfold decodeFrom
      split
      · simp only []
        split
        · exact List.cons_ne_nil _ _
        · exact ih _ (Or.inl rfl)
      · exact List.cons_ne_nil _ _

theorem decode_ne_nil (bs : List UInt8) (h : bs ≠ []) : decode bs ≠ [] :=
  decodeFrom_ne_nil none bs (Or.inr h)

end Utf8

end TagCatalog
