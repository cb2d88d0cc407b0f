/-!
# Shortest Decimals

The shortest decimal that reads back as a given floating-point number.

A positive finite number is `m * 2 ^ q`. The reals that round to it form an
interval around it: half a unit to each side, but only a quarter downwards
where the numbers below lie twice as close. Its ends belong to it when `m` is
even. Among the multiples of a power of ten that lie in the interval, those of
the greatest power have the fewest digits, and of these the nearest is taken.
If any multiple lies in the interval, so does one of the two next to the
number itself, so no more than two have to be tried for each power.

## Main definitions

* `Decimal`: Digits and a power of ten.
* `Rounding`: The interval of reals that round to a number.
* `Rounding.shortest`: The shortest decimal in an interval.
-/

namespace TagCatalog

/-- The number `digits * 10 ^ exponent`. -/
structure Decimal where
  digits : Nat
  exponent : Int
  deriving DecidableEq, Repr

/-- A number with the interval of reals that round to it, all in units of
    `2 ^ scale`. -/
structure Rounding where
  low : Nat
  value : Nat
  high : Nat
  scale : Int
  /-- Whether the ends belong to the interval. -/
  closed : Bool

namespace Rounding

/-- The interval around the positive finite number with the given bits. -/
def ofBits (bits : UInt64) : Rounding :=
  let exponent : Nat := (bits.toNat / Nat.pow 2 52) % Nat.pow 2 11
  let fraction : Nat := bits.toNat % Nat.pow 2 52
  let m : Nat := if exponent = 0 then fraction else fraction + Nat.pow 2 52
  let q : Int := if exponent = 0 then -1074 else (exponent : Int) - 1075
  { low := if fraction = 0 ∧ 1 < exponent then 4 * m - 1 else 4 * m - 2
    value := 4 * m
    high := 4 * m + 2
    scale := q - 2
    closed := m % 2 = 0 }

/-- Whether a number lies in the interval, with everything in one unit. -/
def holds (r : Rounding) (unit x : Nat) : Bool :=
  if r.closed then r.low * unit ≤ x && x ≤ r.high * unit
  else r.low * unit < x && x < r.high * unit

/-- The multiple of `10 ^ k` in the interval that is nearest to the number;
    halfway between two it is the even one. -/
def multiple? (r : Rounding) (k : Int) : Option Nat :=
  let unit := Nat.pow 2 r.scale.toNat * Nat.pow 10 (-k).toNat
  let step := Nat.pow 2 (-r.scale).toNat * Nat.pow 10 k.toNat
  let value := r.value * unit
  let below := value / step
  let above := below + 1
  match r.holds unit (below * step), r.holds unit (above * step) with
  | true, true =>
    let down := value - below * step
    let up := above * step - value
    if down < up ∨ down = up ∧ below % 2 = 0 then some below else some above
  | true, false => some below
  | false, true => some above
  | false, false => none

/-- The multiple of the greatest power of ten below `10 ^ (n - 325)`. -/
def search (r : Rounding) : Nat → Decimal
  | 0 => ⟨0, 0⟩
  | n + 1 =>
    let k : Int := (n : Int) - 325
    match r.multiple? k with
    | some digits => ⟨digits, k⟩
    | none => r.search n

/-- The shortest decimal in the interval. Every finite number is less than
    `10 ^ 309`, and `10 ^ -325` is finer than every interval. -/
def shortest (r : Rounding) : Decimal := r.search 635

end Rounding

end TagCatalog
