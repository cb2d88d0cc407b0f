/-!
# Value Types

What kind of value a tag takes. A tag without values is only present or
absent. The catalog may declare types that are not known here; they are kept
by name.

## Main definitions

* `ValueType`: The kinds of values.
* `ValueType.ofName`: The type of a given name.
* `ValueType.isOrdered`: Whether an interval of values makes sense.
-/

namespace TagCatalog

/-- The kinds of values that a tag can take. -/
inductive ValueType where
  /-- No value at all: the tag is present or absent. -/
  | empty
  | text
  | integer
  | real
  | date
  | timestamp
  | boolean
  /-- A type that is only known by its name. -/
  | other (name : String)
  deriving DecidableEq, Repr

namespace ValueType

/-- The type of a given name. -/
def ofName (name : String) : ValueType :=
  if name = "" ∨ name = "empty" then .empty
  else if name = "text" then .text
  else if name = "int8" then .integer
  else if name = "float8" then .real
  else if name = "date" then .date
  else if name = "timestamptz" then .timestamp
  else if name = "boolean" then .boolean
  else .other name

/-- The name of a type. -/
def name : ValueType → String
  | empty => ""
  | text => "text"
  | integer => "int8"
  | real => "float8"
  | date => "date"
  | timestamp => "timestamptz"
  | boolean => "boolean"
  | other name => name

/-- How a message calls the tags of a type. -/
def title : ValueType → String
  | empty => "flag"
  | type => type.name

/-- Whether an interval of values makes sense. -/
def isOrdered : ValueType → Bool
  | integer | real | date | timestamp => true
  | _ => false

end ValueType

end TagCatalog
