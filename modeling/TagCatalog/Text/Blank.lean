/-!
# Blanks

The characters that stand for empty space: the White_Space property of
Unicode.

## Main definitions

* `isBlank`: Whether a character stands for empty space.
* `trim`: A text without the blanks around it.
-/

namespace TagCatalog

namespace Text

/-- Whether a character stands for empty space. -/
def isBlank (c : Char) : Bool :=
  let n := c.toNat
  (0x09 ≤ n && n ≤ 0x0D) || n = 0x20 || n = 0x85 || n = 0xA0 || n = 0x1680 ||
    (0x2000 ≤ n && n ≤ 0x200A) || n = 0x2028 || n = 0x2029 || n = 0x202F || n = 0x205F ||
    n = 0x3000

/-- A text without the blanks in front of it. -/
def trimStart (cs : List Char) : List Char := cs.dropWhile isBlank

/-- A text without the blanks around it. -/
def trim (cs : List Char) : List Char :=
  (trimStart (trimStart cs).reverse).reverse

end Text

end TagCatalog
