import TagCatalog.Number.Numeral
import TagCatalog.Proofs.Text.Split

/-!
# The Alphabet of Numerals

What a text that denotes a number is not made of.

The comma is the mark between the bounds of an interval, so it matters that no
number has one. A number is digits, a sign, a point and an exponent, or one of
three names, and the argument goes along these parts: taking a part off the
front leaves every comma in what is left, and what is left in the end are
digits.

## Theorems

* `isDigit_of_mem_ofNat`: Numbers are written in digits.
* `head?_ofNat`: Only zero is written with a zero in front.
* `isDigit_of_natural?`: What denotes a number without a sign is digits.
* `comma_mem_dropPlus`, `comma_mem_dropSign`: A sign is no comma.
* `comma_notMem_of_isInteger`, `comma_notMem_of_isReal`: Numbers have no comma.
-/

namespace TagCatalog

namespace Numeral

theorem isDigit_of_mem_ofNat (n : Nat) (c : Char) (h : c ∈ ofNat n) : c.isDigit = true :=
  Nat.isDigit_of_mem_toDigits (by decide) (by decide) h

/-- A number in decimal begins with a zero only if it is zero: its first digit is what is left
    when all others have been divided away. -/
theorem head?_ofNat {n : Nat} (hn : n ≠ 0) : (ofNat n).head? ≠ some '0' := by
  induction n using Nat.strongRecOn with
  | ind n ih =>
    by_cases hsmall : n < 10
    · -- There is one digit.
      have hdigits : ∀ m < 10, m ≠ 0 → (ofNat m).head? ≠ some '0' := by decide
      exact hdigits n hsmall hn
    · have hfirst : (ofNat (n / 10)).head? ≠ some '0' := ih (n / 10) (by omega) (by omega)
      rw [ofNat, Nat.toDigits_of_base_le (by omega) (by omega), List.head?_append]
      rcases List.exists_cons_of_ne_nil (Nat.toDigits_ne_nil (n := n / 10) (b := 10)) with ⟨c, r, h⟩
      rw [ofNat, h] at hfirst
      rw [h]
      exact hfirst

theorem isDigit_of_natural? (cs : List Char) (h : (natural? cs).isSome = true) (c : Char)
    (hc : c ∈ cs) : c.isDigit = true := by
  unfold natural? at h
  split at h
  · next hdigits => exact List.all_eq_true.mp hdigits.2 c hc
  · exact Bool.noConfusion h

theorem comma_notMem_of_natural? (cs : List Char) (h : (natural? cs).isSome = true) : ',' ∉ cs :=
  fun hc => absurd (isDigit_of_natural? cs h ',' hc) (by decide)

theorem comma_mem_dropPlus (cs : List Char) (h : ',' ∈ cs) : ',' ∈ dropPlus cs := by
  unfold dropPlus
  split
  · exact List.mem_of_ne_of_mem (by decide) h
  · exact h

theorem comma_mem_dropSign (cs : List Char) (h : ',' ∈ cs) : ',' ∈ dropSign cs := by
  unfold dropSign
  split
  · exact List.mem_of_ne_of_mem (by decide) h
  · exact List.mem_of_ne_of_mem (by decide) h
  · exact h

theorem comma_notMem_of_isInteger (cs : List Char) (h : isInteger cs = true) : ',' ∉ cs := by
  intro hc
  unfold isInteger at h
  split at h
  · next r =>
    refine comma_notMem_of_natural? r ?_ (List.mem_of_ne_of_mem (by decide) hc)
    exact Option.isSome_of_any h
  · exact comma_notMem_of_natural? _ (Option.isSome_of_any h) (comma_mem_dropPlus cs hc)

theorem comma_notMem_of_isExponent (cs : List Char) (h : isExponent cs = true) : ',' ∉ cs := by
  intro hc
  cases cs with
  | nil => exact List.not_mem_nil hc
  | cons c r =>
    simp only [isExponent, Bool.and_eq_true, Bool.or_eq_true, decide_eq_true_eq] at h
    -- The letter in front is no comma, so the comma would be among the digits.
    have hletter : ',' ≠ c := by
      rcases h.1 with rfl | rfl <;> decide
    exact comma_notMem_of_natural? _ h.2 (comma_mem_dropSign r (List.mem_of_ne_of_mem hletter hc))

/-- A comma is behind the digits in front of it. -/
theorem comma_mem_dropDigits (cs : List Char) (h : ',' ∈ cs) : ',' ∈ cs.dropWhile Char.isDigit :=
  Text.mem_dropWhile Char.isDigit ',' (by decide) cs h

theorem comma_notMem_of_isDecimal (cs : List Char) (h : isDecimal cs = true) : ',' ∉ cs := by
  intro hc
  have hrest := comma_mem_dropDigits cs hc
  unfold isDecimal at h
  -- There are digits behind the point too, and the exponent comes after them.
  split at h
  · next r hr =>
    rw [hr] at hrest
    rw [Bool.and_eq_true] at h
    exact comma_notMem_of_isExponent _ h.2
      (comma_mem_dropDigits r (List.mem_of_ne_of_mem (by decide) hrest))
  · next r =>
    rw [Bool.and_eq_true] at h
    exact comma_notMem_of_isExponent _ h.2 hrest

theorem comma_notMem_of_isSpecial (cs : List Char) (h : isSpecial cs = true) : ',' ∉ cs := by
  intro hc
  -- The names are told without regard to case, and a comma has none.
  have hname : ',' ∈ cs.map Char.toLower := List.mem_map.mpr ⟨',', hc, by decide⟩
  simp only [isSpecial, Bool.or_eq_true, decide_eq_true_eq] at h
  rcases h with (h | h) | h <;> rw [h] at hname <;> exact absurd hname (by decide)

theorem comma_notMem_of_isReal (cs : List Char) (h : isReal cs = true) : ',' ∉ cs := by
  intro hc
  have hmagnitude := comma_mem_dropSign cs hc
  simp only [isReal, Bool.or_eq_true] at h
  rcases h with h | h
  · exact comma_notMem_of_isDecimal _ h hmagnitude
  · exact comma_notMem_of_isSpecial _ h hmagnitude

end Numeral

end TagCatalog
