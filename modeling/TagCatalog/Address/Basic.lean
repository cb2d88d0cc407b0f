import TagCatalog.Query.Basic
import TagCatalog.Schema.Basic
import TagCatalog.Time.Zone

/-!
# Addressing

What has to be known besides a filter, columns and a sort order to write the
address of a request, and how writing can fail.

## Main definitions

* `Addressing`: The settings under which addresses are written.
* `Addressing.suffix`: What follows each value of a tag.
* `AddressError`: How writing can fail.
-/

namespace TagCatalog

/-- How writing an address can fail. -/
inductive AddressError where
  /-- There is no column to show. -/
  | noColumns
  /-- A condition has a wrong number of values. -/
  | arity (tag : String) (op : Operator) (count : Nat)
  deriving DecidableEq, Repr

/-- The wording of a failure. -/
def AddressError.message : AddressError → String
  | noColumns => "no result columns to project"
  | arity tag op count =>
    op.label ++ " predicate on '" ++ tag ++ "' cannot take " ++
      String.ofList (Numeral.ofNat count) ++ " value(s)"

/-- The settings under which addresses are written. -/
structure Addressing where
  /-- The text in front of the conditions. -/
  base : String
  schema : Schema
  /-- The zone in which points in time are meant. -/
  zone : Zone := .utc
  options : Options := { limit := some .unlimited }
  /-- A tag whose conditions are left out. -/
  excluded : Option String := none
  deriving DecidableEq

namespace Addressing

/-- What follows each value of a tag: points in time carry the zone. -/
def suffix (a : Addressing) (tag : String) : String :=
  if a.schema.isTimestamp tag then a.zone.suffix else ""

end Addressing

end TagCatalog
