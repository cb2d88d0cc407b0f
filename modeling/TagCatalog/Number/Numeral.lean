/-!
# Numerals

Numbers as decimal texts: a row number or count, which may carry a plus sign
and has to fit into a word; a whole number with a sign that has to fit into a
signed word; and a number with a point or an exponent, of which only the form
counts, because every such text denotes some floating-point number.

## Main definitions

* `Numeral.ofNat`: The decimal digits of a number.
* `Numeral.word?`: The word that a text denotes.
* `Numeral.isInteger`: Whether a text denotes a signed word.
* `Numeral.isReal`: Whether a text denotes a floating-point number.

## Theorems

* `Numeral.natural?_ofNat`: Digits that were written are read back.
* `Numeral.word?_ofNat`: A word that was written is read back.
-/

namespace TagCatalog

namespace Numeral

/-- The decimal digits of a number. -/
def ofNat (n : Nat) : List Char := Nat.toDigits 10 n

/-- The number that a text of digits denotes; at least one is needed. -/
def natural? (cs : List Char) : Option Nat :=
  if cs ≠ [] ∧ cs.all Char.isDigit then some (Nat.ofDigitChars 10 cs 0) else none

/-- A text without the plus sign that it may start with. -/
def dropPlus : List Char → List Char
  | '+' :: r => r
  | cs => cs

/-- The word that a text denotes. -/
def word? (cs : List Char) : Option UInt64 :=
  match natural? (dropPlus cs) with
  | some n => if h : n < UInt64.size then some (UInt64.ofNatLT n h) else none
  | none => none

/-- Whether a text denotes a whole number from -2^63 to 2^63 - 1. -/
def isInteger : List Char → Bool
  | '-' :: r => (natural? r).any (· ≤ UInt64.size / 2)
  | cs => (natural? (dropPlus cs)).any (· < UInt64.size / 2)

/-- A text without the sign that it may start with. -/
def dropSign : List Char → List Char
  | '+' :: r => r
  | '-' :: r => r
  | cs => cs

/-- Whether a text is empty or is an exponent: a letter, perhaps a sign, and
    digits. -/
def isExponent : List Char → Bool
  | [] => true
  | c :: r => (c = 'e' || c = 'E') && (natural? (dropSign r)).isSome

/-- Whether a text has a digit before or after its point, and then perhaps an
    exponent. -/
def isDecimal (cs : List Char) : Bool :=
  let whole := cs.takeWhile Char.isDigit
  match cs.dropWhile Char.isDigit with
  | '.' :: r =>
    (!whole.isEmpty || !(r.takeWhile Char.isDigit).isEmpty) && isExponent (r.dropWhile Char.isDigit)
  | r => !whole.isEmpty && isExponent r

/-- The names of the values that no digits denote. -/
def isSpecial (cs : List Char) : Bool :=
  let name := cs.map Char.toLower
  name = "inf".toList || name = "infinity".toList || name = "nan".toList

/-- Whether a text denotes a floating-point number. -/
def isReal (cs : List Char) : Bool :=
  let magnitude := dropSign cs
  isDecimal magnitude || isSpecial magnitude

theorem natural?_ofNat (n : Nat) : natural? (ofNat n) = some n := by
  have h : (Nat.toDigits 10 n).all Char.isDigit = true := by
    rw [List.all_eq_true]
    exact fun c hc => Nat.isDigit_of_mem_toDigits (by decide) (by decide) hc
  simp [natural?, ofNat, Nat.toDigits_ne_nil, h]

theorem dropPlus_ofNat (n : Nat) : dropPlus (ofNat n) = ofNat n := by
  unfold dropPlus
  split
  · next r h =>
    have hm : '+' ∈ ofNat n := by simp [h]
    exact absurd (Nat.isDigit_of_mem_toDigits (by decide) (by decide) hm) (by decide)
  · rfl

theorem word?_ofNat (w : UInt64) : word? (ofNat w.toNat) = some w := by
  simp [word?, dropPlus_ofNat, natural?_ofNat, w.toNat_lt]

end Numeral

end TagCatalog
