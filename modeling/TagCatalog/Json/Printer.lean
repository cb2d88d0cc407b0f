import TagCatalog.Json.Value
import TagCatalog.Text.Split

/-!
# Writing Documents

A value as text, either without any blanks or spread over lines with two
blanks for each level of nesting.

Both are what `serde_json` writes. Only quotation marks, backslashes and control
characters are written as something else, control characters without a letter of
their own by a number in lower case, and an empty list or object takes no lines.

## Main definitions

* `Value.compact`: A value without blanks.
* `Value.pretty`: A value over several lines.
-/

namespace TagCatalog

namespace Json

open Text

/-- A character inside a quoted text. -/
def quotedChar (c : Char) : List Char :=
  match c with
  | '"' => ['\\', '"']
  | '\\' => ['\\', '\\']
  | '\x08' => ['\\', 'b']
  | '\x0C' => ['\\', 'f']
  | '\n' => ['\\', 'n']
  | '\r' => ['\\', 'r']
  | '\t' => ['\\', 't']
  | c =>
    if c.toNat < 0x20 then
      "\\u00".toList ++
        [Nat.digitChar (c.toNat / 16), Nat.digitChar (c.toNat % 16)]
    else [c]

/-- A quoted text. -/
def quoted (s : String) : List Char :=
  '"' :: s.toList.flatMap quotedChar ++ ['"']

namespace Value

/-- The text of a truth value. -/
def boolChars (b : Bool) : List Char := if b then "true".toList else "false".toList

/-- Pieces between two marks, with commas. -/
def enclosed (first last : Char) (pieces : List (List Char)) : List Char :=
  first :: joinWith ',' pieces ++ [last]

mutual

/-- A value without blanks. -/
def compact : Value → List Char
  | .null => "null".toList
  | .bool b => boolChars b
  | .number n => n.chars
  | .text s => quoted s
  | .array items => enclosed '[' ']' (compactItems items)
  | .object members => enclosed '\x7b' '\x7d' (compactMembers members)

/-- The items of a list without blanks. -/
def compactItems : List Value → List (List Char)
  | [] => []
  | v :: r => v.compact :: compactItems r

/-- The members of an object without blanks. -/
def compactMembers : List (String × Value) → List (List Char)
  | [] => []
  | (k, v) :: r => (quoted k ++ ':' :: v.compact) :: compactMembers r

end

/-- A new line at a level of nesting. -/
def newLine (level : Nat) : List Char := '\n' :: List.replicate (2 * level) ' '

/-- Pieces between two marks, each on a line of its own at a level. -/
def spread (first last : Char) (level : Nat) (pieces : List (List Char)) : List Char :=
  if pieces.isEmpty then [first, last]
  else
    first :: joinWith ',' (pieces.map fun p => newLine (level + 1) ++ p) ++ newLine level ++ [last]

mutual

/-- A value over several lines, at a level of nesting. -/
def prettyAt (level : Nat) : Value → List Char
  | .null => "null".toList
  | .bool b => boolChars b
  | .number n => n.chars
  | .text s => quoted s
  | .array items => spread '[' ']' level (prettyItems (level + 1) items)
  | .object members => spread '\x7b' '\x7d' level (prettyMembers (level + 1) members)

/-- The items of a list over several lines. -/
def prettyItems (level : Nat) : List Value → List (List Char)
  | [] => []
  | v :: r => v.prettyAt level :: prettyItems level r

/-- The members of an object over several lines. -/
def prettyMembers (level : Nat) : List (String × Value) → List (List Char)
  | [] => []
  | (k, v) :: r => (quoted k ++ ": ".toList ++ v.prettyAt level) :: prettyMembers level r

end

/-- A value over several lines. -/
def pretty (v : Value) : String := String.ofList (v.prettyAt 0)

end Value

end Json

end TagCatalog
