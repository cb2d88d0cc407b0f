import TagCatalog.Json.Record
import TagCatalog.Json.Token
import TagCatalog.Json.Value
import TagCatalog.Proofs.Number.Numeral

/-!
# Whole Numbers in Documents

Whole numbers are read as the digits that were printed.

The reader of numbers is strict about one thing that printing has to meet: only zero itself
begins with a zero. That is `Numeral.head?_ofNat`. Behind the digits the reader would look for
a fraction and an exponent, but there is nothing.

## Theorems

* `ofChars?_ofNat`: The parts of printed digits, with a sign or without.
* `numberText_integer`, `ofWord?_integer`: A printed number is read as its parts.
* `isWordChar_of_mem_integer`, `integer_ne_nil`: A printed number is a word.
* `word?_ofWord`: A printed word is read as the word.
-/

namespace TagCatalog

namespace Json

/-- The parts of digits behind a sign, or alone. -/
theorem NumberText.ofChars?_ofNat (negative : Bool) (n : Nat) :
    ofChars? ((if negative then ['-'] else []) ++ Numeral.ofNat n) =
      some ⟨negative, Numeral.ofNat n, none, none⟩ := by
  have hdigits : ∀ c ∈ Numeral.ofNat n, c.isDigit = true := Numeral.isDigit_of_mem_ofNat n
  have htake : (Numeral.ofNat n).takeWhile Char.isDigit = Numeral.ofNat n :=
    List.takeWhile_eq_self_iff.mpr hdigits
  have hdrop : (Numeral.ofNat n).dropWhile Char.isDigit = [] :=
    List.dropWhile_eq_nil_iff.mpr hdigits
  have hzero : ¬ (Numeral.ofNat n = [] ∨
      ((Numeral.ofNat n).head? = some '0' ∧ Numeral.ofNat n ≠ ['0'])) := by
    rintro (hnil | ⟨hhead, hlong⟩)
    · exact Nat.toDigits_ne_nil hnil
    · by_cases hn : n = 0
      · exact hlong (hn ▸ rfl)
      · exact Numeral.head?_ofNat hn hhead
  cases negative with
  | true =>
    simp only [ofChars?, if_true, List.cons_append, List.nil_append, htake, hdrop, if_neg hzero]
    rfl
  | false =>
    simp only [ofChars?, Bool.false_eq_true, if_false, List.nil_append]
    split
    · next r hsign =>
      -- Digits are no sign.
      exact absurd (hdigits '-' (hsign ▸ List.mem_cons_self)) (by decide)
    · simp only [htake, hdrop, if_neg hzero]
      rfl

namespace Value

theorem numberText_integer (n : Int) :
    numberText (.integer n) = ⟨decide (n < 0), Numeral.ofNat n.natAbs, none, none⟩ := by
  have hread := NumberText.ofChars?_ofNat (decide (n < 0)) n.natAbs
  simp only [decide_eq_true_eq] at hread
  rw [numberText, Number.chars, hread, Option.getD_some]

theorem mem_integer {n : Int} {c : Char} (hc : c ∈ (Number.integer n).chars) :
    c = '-' ∨ c.isDigit = true := by
  rcases List.mem_append.mp hc with hc | hc
  · split at hc
    · exact Or.inl (List.mem_singleton.mp hc)
    · exact absurd hc List.not_mem_nil
  · exact Or.inr (Numeral.isDigit_of_mem_ofNat _ c hc)

theorem isWordChar_of_mem_integer {n : Int} {c : Char} (hc : c ∈ (Number.integer n).chars) :
    Token.isWordChar c = true := by
  rcases mem_integer hc with rfl | hdigit
  · rfl
  · simp [Token.isWordChar, Char.isAlphanum, hdigit]

theorem integer_ne_nil (n : Int) : (Number.integer n).chars ≠ [] :=
  List.append_ne_nil_of_right_ne_nil _ Nat.toDigits_ne_nil

/-- A printed number is read as its parts. -/
theorem ofWord?_integer (n : Int) :
    Document.ofWord? (Number.integer n).chars = some (.number (numberText (.integer n))) := by
  have hread := NumberText.ofChars?_ofNat (decide (n < 0)) n.natAbs
  simp only [decide_eq_true_eq] at hread
  -- Each of the three names has a letter, and a number has none.
  have hname : ∀ name : List Char, ∀ c ∈ name, c ≠ '-' → c.isDigit = false →
      (Number.integer n).chars ≠ name := by
    rintro name c hc hsign hdigit rfl
    rcases mem_integer hc with h | h
    · exact hsign h
    · exact Bool.false_ne_true (hdigit.symm.trans h)
  rw [Document.ofWord?, if_neg (hname _ 'u' (by decide) (by decide) rfl),
    if_neg (hname _ 'u' (by decide) (by decide) rfl),
    if_neg (hname _ 'a' (by decide) (by decide) rfl), numberText_integer, Number.chars, hread]
  rfl

/-- A printed word is read as the word. -/
theorem word?_ofWord (w : UInt64) : Document.word? (ofWord w).document = some w := by
  have hparts : numberText (.integer w.toNat) = ⟨false, Numeral.ofNat w.toNat, none, none⟩ := by
    rw [numberText_integer, Int.natAbs_natCast, decide_eq_false (by omega)]
  rw [ofWord, document, Tree.map, Document.word?, hparts]
  exact Numeral.word?_ofNat w

end Value

end Json

end TagCatalog
