import TagCatalog.Text.Utf8

/-!
# Percent Coding

How names and values are written so that they can stand inside an address.

A character that the receiving grammar gives no meaning stays as it is; every
other one is written byte by byte as a percent sign and two upper-case
hexadecimal digits. `escape` keeps so few characters that its result can hold
no delimiter of a request address. `escapeComponent` keeps some marks more
and is used around a whole address.

Reading is total. A percent sign without two hexadecimal digits behind it
stands for itself, and bytes that are no text become replacement characters.

Coding and reading are those of version 2 of `percent-encoding`, with reading in
its form that never fails.

## Main definitions

* `escape`: A name or value as it stands in a request address.
* `escapeComponent`: A whole address as it stands in a link.
* `unescape`: The text that a percent-coded text stands for.
-/

namespace TagCatalog

namespace Percent

/-- An upper-case hexadecimal digit. -/
def hexDigit (n : Nat) : Char :=
  if n < 10 then Char.ofNat (0x30 + n) else Char.ofNat (0x41 + (n - 10))

/-- The value of a hexadecimal digit of either case. -/
def hexValue? (c : Char) : Option Nat :=
  if '0' ≤ c ∧ c ≤ '9' then some (c.toNat - 0x30)
  else if 'A' ≤ c ∧ c ≤ 'F' then some (c.toNat - 0x41 + 10)
  else if 'a' ≤ c ∧ c ≤ 'f' then some (c.toNat - 0x61 + 10)
  else none

/-- A byte as a percent sign and two digits. -/
def codedByte (b : UInt8) : List Char :=
  ['%', hexDigit (b.toNat / 16), hexDigit (b.toNat % 16)]

/-- Write a text, leaving the characters that `keep` accepts. -/
def encode (keep : Char → Bool) (cs : List Char) : List Char :=
  cs.flatMap fun c => if keep c then [c] else (String.utf8EncodeChar c).flatMap codedByte

/-- The bytes of a percent-coded text. -/
def decodeBytes : List Char → List UInt8
  | [] => []
  | '%' :: a :: b :: r =>
    match hexValue? a, hexValue? b with
    | some x, some y => UInt8.ofNat (16 * x + y) :: decodeBytes r
    | _, _ => UInt8.ofNat '%'.toNat :: decodeBytes (a :: b :: r)
  | c :: r => String.utf8EncodeChar c ++ decodeBytes r

/-- The text that a percent-coded text stands for. -/
def decode (cs : List Char) : List Char :=
  Utf8.decode (decodeBytes cs)

/-- The characters that stay in a name or value: ASCII letters and digits,
    and four marks without meaning in the grammar. -/
def keptInName (c : Char) : Bool :=
  c.isAlphanum || c = '-' || c = '_' || c = '.' || c = '*'

/-- The characters that stay in an address inside a link. -/
def keptInComponent (c : Char) : Bool :=
  keptInName c || c = '!' || c = '~' || c = '\'' || c = '(' || c = ')'

end Percent

/-- A name or value as it stands in a request address. -/
def escape (s : String) : List Char :=
  Percent.encode Percent.keptInName s.toList

/-- A whole address as it stands in a link. -/
def escapeComponent (s : String) : List Char :=
  Percent.encode Percent.keptInComponent s.toList

/-- The text that a percent-coded text stands for. -/
def unescape (cs : List Char) : String :=
  String.ofList (Percent.decode cs)

end TagCatalog
