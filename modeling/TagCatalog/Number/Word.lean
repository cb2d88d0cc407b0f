/-!
# Machine Words

Row numbers, counts and sizes are unsigned numbers of 64 bits. A result that
does not fit is the greatest word.

## Main definitions

* `Word.saturate`: The word nearest to a number.

## Theorems

* `Word.toNat_saturate`: The value of a saturated word.
-/

namespace TagCatalog

namespace Word

/-- The greatest word. -/
def greatest : UInt64 := 0xFFFFFFFFFFFFFFFF

/-- The word nearest to a number. -/
def saturate (n : Nat) : UInt64 :=
  if h : n < UInt64.size then UInt64.ofNatLT n h else greatest

theorem toNat_saturate (n : Nat) : (saturate n).toNat = min n (UInt64.size - 1) := by
  unfold saturate greatest
  split
  · rw [UInt64.toNat_ofNatLT]
    omega
  · rw [Nat.min_eq_right (by omega)]
    rfl

end Word

end TagCatalog
