import TagCatalog.Number.Numeral
import TagCatalog.Number.Shortest
import TagCatalog.Number.Word

/-!
# Numbers in Documents

A number is written as digits with perhaps a sign, a fraction and an exponent.
Whole numbers that fit into a word, with or without sign, stay exact. All
others become floating-point numbers, by a short way: the digits are gathered
in a word, digits that no longer fit only count towards the exponent, and the
word is then multiplied or divided by a power of ten once. A result that is
not finite is refused.

Floating-point numbers are written with the fewest digits that tell them
apart, with an exponent only when the point would stand far from the digits.

## Main definitions

* `NumberText`: The parts of a written number.
* `NumberText.ofChars?`: The parts that a text has.
* `Number`: An exact or a floating-point number.
* `NumberText.value?`: The number that a text denotes.
* `Number.chars`: The text of a number.
-/

namespace TagCatalog

namespace Json

/-- The parts of a written number. -/
structure NumberText where
  negative : Bool
  whole : List Char
  /-- The digits behind the point, if there is one. -/
  fraction : Option (List Char)
  exponent : Option Int
  deriving DecidableEq, Repr

namespace NumberText

/-- The exponent that a text is, which has to have digits. -/
def exponent? : List Char → Option Int
  | '+' :: r => (Numeral.natural? r).map fun n => (n : Int)
  | '-' :: r => (Numeral.natural? r).map fun n => -(n : Int)
  | cs => (Numeral.natural? cs).map fun n => (n : Int)

/-- The exponent behind its letter, or nothing. -/
def tail? : List Char → Option (Option Int)
  | [] => some none
  | c :: r => if c = 'e' ∨ c = 'E' then (exponent? r).map some else none

/-- The parts that a text has. Only a single zero starts with a zero. -/
def ofChars? (cs : List Char) : Option NumberText :=
  let (negative, cs) :=
    match cs with
    | '-' :: r => (true, r)
    | cs => (false, cs)
  let whole := cs.takeWhile Char.isDigit
  let rest := cs.dropWhile Char.isDigit
  if whole = [] ∨ (whole.head? = some '0' ∧ whole ≠ ['0']) then none
  else
    match rest with
    | '.' :: r =>
      let fraction := r.takeWhile Char.isDigit
      if fraction.isEmpty then none
      else (tail? (r.dropWhile Char.isDigit)).map fun e => ⟨negative, whole, some fraction, e⟩
    | rest => (tail? rest).map fun e => ⟨negative, whole, none, e⟩

/-- The word that a number without sign, fraction and exponent denotes. -/
def word? (n : NumberText) : Option UInt64 :=
  match n with
  | ⟨false, whole, none, none⟩ => Numeral.word? whole
  | _ => none

end NumberText

/-- An exact or a floating-point number. -/
inductive Number where
  | integer (n : Int)
  | float (x : Float)

/-- Digits gathered in a word, and a power of ten. -/
structure Gathered where
  significand : Nat
  exponent : Int
  /-- Whether a digit did not fit. -/
  full : Bool

namespace Gathered

/-- One more digit in front of the point. -/
def whole (g : Gathered) (c : Char) : Gathered :=
  let n := 10 * g.significand + (c.toNat - '0'.toNat)
  if g.full ∨ UInt64.size ≤ n then { g with exponent := g.exponent + 1, full := true }
  else { g with significand := n }

/-- One more digit behind the point. -/
def fraction (g : Gathered) (c : Char) : Gathered :=
  let n := 10 * g.significand + (c.toNat - '0'.toNat)
  if g.full ∨ UInt64.size ≤ n then { g with full := true }
  else { g with significand := n, exponent := g.exponent - 1 }

end Gathered

/-- A number divided by a power of ten, in steps of the greatest power that
    there is. -/
def divideByPower (x : Float) (k : Nat) : Float :=
  if k ≤ 308 then x / Float.ofScientific 1 false k
  else if x == 0 then x
  else divideByPower (x / Float.ofScientific 1 false 308) (k - 308)
termination_by k

/-- A number times a power of ten, if that is finite. -/
def scale? (x : Float) (exponent : Int) : Option Float :=
  if exponent < 0 then some (divideByPower x exponent.natAbs)
  else if exponent ≤ 308 then
    let y := x * Float.ofScientific 1 false exponent.natAbs
    if y.isInf then none else some y
  else if x == 0 then some x
  else none

namespace NumberText

/-- The floating-point number that a text denotes. -/
def float? (n : NumberText) : Option Float :=
  let g := n.whole.foldl Gathered.whole ⟨0, 0, false⟩
  let g := (n.fraction.getD []).foldl Gathered.fraction { g with full := false }
  let x := (UInt64.ofNat g.significand).toFloat
  (scale? x (g.exponent + n.exponent.getD 0)).map fun x => if n.negative then -x else x

/-- The number that a text denotes. A zero with a sign is a floating-point
    number, since no whole number has the sign. -/
def value? (n : NumberText) : Option Number :=
  let digits := Nat.ofDigitChars 10 n.whole 0
  if n.fraction.isNone ∧ n.exponent.isNone ∧
      if n.negative then 0 < digits ∧ digits ≤ UInt64.size / 2 else digits < UInt64.size then
    some (.integer (if n.negative then -(digits : Int) else digits))
  else n.float?.map .float

end NumberText

/-- The text of a decimal: the digits alone with a point among them or beside
    them, or with an exponent. -/
def decimalChars (d : Decimal) : List Char :=
  let digits := Numeral.ofNat d.digits
  /- the place of the point, counted from the first digit -/
  let point : Int := d.exponent + digits.length
  if 0 ≤ d.exponent ∧ point ≤ 16 then
    digits ++ List.replicate d.exponent.toNat '0' ++ ".0".toList
  else if 0 < point ∧ point ≤ 16 then
    digits.take point.toNat ++ '.' :: digits.drop point.toNat
  else if -5 < point ∧ point ≤ 0 then
    "0.".toList ++ List.replicate (-point).toNat '0' ++ digits
  else
    let mantissa :=
      match digits with
      | [c] => [c]
      | c :: r => c :: '.' :: r
      | [] => []
    mantissa ++ 'e' :: (if point - 1 < 0 then '-' else '+') :: Numeral.ofNat (point - 1).natAbs

/-- The text of a floating-point number; only finite ones have digits. -/
def floatChars (x : Float) : List Char :=
  if x.isNaN || x.isInf then "null".toList
  else
    let bits := x.toBits
    let magnitude := bits &&& 0x7FFFFFFFFFFFFFFF
    let sign := if bits = magnitude then [] else ['-']
    if magnitude = 0 then sign ++ "0.0".toList
    else sign ++ decimalChars (Rounding.ofBits magnitude).shortest

namespace Number

/-- The text of a number. -/
def chars : Number → List Char
  | integer n => (if n < 0 then ['-'] else []) ++ Numeral.ofNat n.natAbs
  | float x => floatChars x

/-- The word that a number is. -/
def word? : Number → Option UInt64
  | integer n =>
    if 0 ≤ n then
      if h : n.toNat < UInt64.size then some (UInt64.ofNatLT n.toNat h) else none
    else none
  | float _ => none

end Number

end Json

end TagCatalog
