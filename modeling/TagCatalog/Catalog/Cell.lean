import TagCatalog.Json.Printer

/-!
# Cells

A row of an answer holds a value for each of its tags. A cell shows a text as
it is and the values of a list with commas between them; an answer about the
values of a tag is a single row with one cell.

## Main definitions

* `Row`: The values of a subject by tag.
* `cellText`: The text that a cell shows.
* `Row.countOf?`: The number in the cell of a tag.
* `Row.valuesOf`: The values in the cell of a tag.
-/

namespace TagCatalog

open Json

/-- The values of a subject by tag, in the order of the tags. -/
abbrev Row := List (String × Value)

mutual

/-- The text that a cell shows. -/
def cellText : Value → List Char
  | .null => []
  | .text s => s.toList
  | .array items => Text.joinWith ',' (cellTexts items)
  | value => value.compact

/-- The texts of the values of a list. -/
def cellTexts : List Value → List (List Char)
  | [] => []
  | v :: r => cellText v :: cellTexts r

end

namespace Row

/-- The cell of a tag. -/
def cell? (row : Row) (tag : String) : Option Value :=
  (row.find? fun m => m.1 = tag).map Prod.snd

/-- The number in the cell of a tag, which may be written as a text. -/
def countOf? (rows : List Row) (tag : String) : Option UInt64 :=
  match rows.head?.bind fun row => row.cell? tag with
  | some (.number n) => n.word?
  | some (.text s) => Numeral.word? s.toList
  | _ => none

/-- The values in the cell of a tag. -/
def valuesOf (rows : List Row) (tag : String) : List String :=
  match rows.head?.bind fun row => row.cell? tag with
  | some (.array items) => (cellTexts items).map String.ofList
  | some .null | none => []
  | some value => [String.ofList (cellText value)]

/-- The rows that a document is. -/
def rowsOfDocument? (d : Document) : Option (List Row) :=
  match Value.ofDocument? d with
  | some (.array items) =>
    items.mapM fun
      | .object members => some members
      | _ => none
  | _ => none

end Row

end TagCatalog
