import TagCatalog.Data.OrderedMap
import TagCatalog.Json.Document

/-!
# Values

What a document means when nothing is known about its shape: numbers are
numbers, texts are texts, and an object has one member for each name, in the
order of the names. Where a name stands twice the last value counts. Nesting
is limited. All of this is so where `serde_json` reads a value.

## Main definitions

* `Value`: What a document means.
* `Value.ofDocument?`: The meaning of a document.
* `Value.document`: The document that a value is written as.
-/

namespace TagCatalog

namespace Json

/-- What a document means. -/
abbrev Value := Tree Number String

/-- How deep lists and objects may be nested. -/
def maxDepth : Nat := 127

namespace Value

/-- One member for each name, in the order of the names. -/
def normalMembers (members : List (String × Value)) : List (String × Value) :=
  (OrderedMap.ofList members).entries.mergeSort fun a b => a.1 ≤ b.1

mutual

/-- The meaning of a document, whatever its depth. -/
def ofDeep? : Document → Option Value
  | .null => some .null
  | .bool b => some (.bool b)
  | .number n => n.value?.map .number
  | .text s => s.map .text
  | .array items => (ofItems? items).map .array
  | .object members => (ofMembers? members).map fun ms => .object (normalMembers ms)

/-- The meanings of the items of a list. -/
def ofItems? : List Document → Option (List Value)
  | [] => some []
  | d :: r =>
    match ofDeep? d, ofItems? r with
    | some v, some vs => some (v :: vs)
    | _, _ => none

/-- The meanings of the members of an object. -/
def ofMembers? : List (Option String × Document) → Option (List (String × Value))
  | [] => some []
  | (k, d) :: r =>
    match k, ofDeep? d, ofMembers? r with
    | some k, some v, some vs => some ((k, v) :: vs)
    | _, _, _ => none

end

/-- The meaning of a document. -/
def ofDocument? (d : Document) : Option Value :=
  if d.depth ≤ maxDepth then ofDeep? d else none

/-- The value that a text denotes. -/
def parse? (text : List Char) : Option Value :=
  (Document.parse? text).bind ofDocument?

/-- The parts of a number as it is written. -/
def numberText (n : Number) : NumberText :=
  (NumberText.ofChars? n.chars).getD ⟨false, ['0'], none, none⟩

/-- The document that a value is written as. -/
def document (value : Value) : Document := value.map numberText some

/-- A value for a word. -/
def ofWord (n : UInt64) : Value := .number (.integer n.toNat)

/-- A value for a list of texts. -/
def ofTexts (texts : List String) : Value := .array (texts.map .text)

end Value

end Json

end TagCatalog
