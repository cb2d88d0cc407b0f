import TagCatalog.Schema.ValueType

/-!
# Operators

The conditions that a request can put on a tag, and what is fixed about each:
the mark that stands for it in an address, the name shown to a person, how
many values it takes and for which types it has no meaning.

Three operators have no mark of their own. Presence is written as the bare
name, an interval as an equality, and `unset` stands for a condition that has
not been chosen yet and is never written.

## Main definitions

* `Operator`: The conditions.
* `Operator.mark`: What stands for an operator in an address.
* `Operator.accepts`: Whether an operator takes a number of values.
* `Operator.appliesTo`: Whether an operator has a meaning for a type.
-/

namespace TagCatalog

/-- The conditions that a request can put on a tag. -/
inductive Operator where
  /-- The subject has the tag. -/
  | tagged
  | absent
  | eq
  | neq
  | less
  | lessEq
  | greater
  | greaterEq
  | like
  | similarTo
  | regex
  | notRegex
  | ciRegex
  | notCiRegex
  | between
  /-- No condition chosen yet. -/
  | unset
  deriving DecidableEq, Repr

/-- How many values an operator takes. -/
inductive Arity where
  | zero
  | pair
  | atLeastOne
  deriving DecidableEq, Repr

/-- Whether a number of values is right. -/
def Arity.accepts : Arity → Nat → Bool
  | zero, n => n = 0
  | pair, n => n = 2
  | atLeastOne, n => 0 < n

namespace Operator

/-- Every operator, in the order in which they are offered. -/
def all : List Operator :=
  [tagged, absent, eq, neq, less, lessEq, greater, greaterEq, like, similarTo, regex, notRegex,
    ciRegex, notCiRegex, between, unset]

/-- What stands for an operator in an address. -/
def mark : Operator → List Char
  | tagged => []
  | absent => ":absent:".toList
  | eq => "=".toList
  | neq => "!=".toList
  | less => ":lt:".toList
  | lessEq => ":leq:".toList
  | greater => ":gt:".toList
  | greaterEq => ":geq:".toList
  | like => ":like:".toList
  | similarTo => ":simto:".toList
  | regex => ":regexp:".toList
  | notRegex => ":!regexp:".toList
  | ciRegex => ":ciregexp:".toList
  | notCiRegex => ":!ciregexp:".toList
  | between => "=".toList
  | unset => []

/-- The name shown to a person. -/
def label : Operator → String
  | tagged => "Tagged"
  | absent => "Tag absent"
  | eq => "Equal"
  | neq => "Not equal"
  | less => "Less than"
  | lessEq => "Less than or equal"
  | greater => "Greater than"
  | greaterEq => "Greater than or equal"
  | like => "LIKE (SQL operator)"
  | similarTo => "SIMILAR TO (SQL operator)"
  | regex => "Regular expression (case sensitive)"
  | notRegex => "Negated regular expression (case sensitive)"
  | ciRegex => "Regular expression (case insensitive)"
  | notCiRegex => "Negated regular expression (case insensitive)"
  | between => "Between"
  | unset => "None"

/-- The operator with a given label. -/
def ofLabel? (label : String) : Option Operator :=
  all.find? fun op => op.label = label

/-- How many values an operator takes. -/
def arity : Operator → Arity
  | tagged | absent | unset => .zero
  | between => .pair
  | _ => .atLeastOne

/-- Whether an operator takes a number of values. -/
def accepts (op : Operator) (count : Nat) : Bool :=
  op.arity.accepts count

/-- Whether an operator has a meaning for the values of a type. Patterns are
    for text and unknown types, order is for everything but flags and truth
    values, and an interval needs a type that is known to be ordered. -/
def appliesTo : Operator → ValueType → Bool
  | tagged, _ | absent, _ | unset, _ => true
  | eq, type | neq, type => type ≠ .empty
  | less, type | lessEq, type | greater, type | greaterEq, type =>
    type ≠ .empty && type ≠ .boolean
  | between, type => type.isOrdered
  | _, .text | _, .other _ => true
  | _, _ => false

end Operator

end TagCatalog
