import TagCatalog.Data.OrderedMap
import TagCatalog.Query.Operator
import TagCatalog.Query.Page

/-!
# Queries

What a request asks for: which subjects, which of their tags as columns, in
which order, and which part of the resulting rows.

## Main definitions

* `Predicate`: A condition on the values of a tag.
* `Filter`: Conditions by tag, in the order in which tags were first
  constrained.
* `SortKey`: A column to sort by, with a direction.
* `Options`: Which versions of subjects, and which rows or values of them.
* `Query`: A whole request.
* `Query.page`: The page of rows that a request shows.
-/

namespace TagCatalog

/-- A condition on the values of a tag. -/
structure Predicate where
  op : Operator
  values : List String := []
  deriving DecidableEq, Repr

namespace Predicate

/-- The condition that the tag is present. -/
def tagged : Predicate := ⟨.tagged, []⟩

/-- The condition that a value lies between two others. -/
def between (low high : String) : Predicate := ⟨.between, [low, high]⟩

/-- Whether no condition has been chosen yet. -/
def isUnset (p : Predicate) : Bool := p.op = .unset

/-- Whether the operator takes as many values as there are. -/
def hasValidArity (p : Predicate) : Bool := p.op.accepts p.values.length

end Predicate

/-- Conditions by tag, in the order in which tags were first constrained. -/
abbrev Filter := OrderedMap String (List Predicate)

/-- The direction of a sort. -/
inductive Direction where
  | asc
  | desc
  deriving DecidableEq, Repr

/-- What stands for a direction in an address. -/
def Direction.mark : Direction → List Char
  | asc => ":asc:".toList
  | desc => ":desc:".toList

/-- A column to sort by, with a direction. -/
structure SortKey where
  name : String
  direction : Direction
  deriving DecidableEq, Repr

/-- How many rows to send at most. -/
inductive Limit where
  | rows (n : PageSize)
  | unlimited
  deriving DecidableEq, Repr

/-- Which versions of a subject are searched. -/
inductive Versions where
  | latest
  | any
  deriving DecidableEq, Repr

/-- What to tell about the values of a column instead of sending rows. -/
inductive RangeMode where
  /-- How many different values there are. -/
  | count
  /-- The different values. -/
  | values
  deriving DecidableEq, Repr

/-- Which versions of subjects, and which rows or values of them. -/
structure Options where
  versions : Versions := .latest
  limit : Option Limit := none
  offset : Option UInt64 := none
  range : Option RangeMode := none
  deriving DecidableEq, Repr

/-- A whole request. -/
structure Query where
  /-- The text in front of the conditions. -/
  base : String := ""
  filter : Filter := .empty
  columns : List String := []
  sort : List SortKey := []
  options : Options := {}
  deriving DecidableEq

namespace Query

/-- The page of rows that a request shows; `size` is used when it names none. -/
def page (q : Query) (size : PageSize) : Page :=
  Page.holding (q.options.offset.getD 0) <|
    match q.options.limit with
    | some (.rows n) => n
    | _ => size

end Query

end TagCatalog
