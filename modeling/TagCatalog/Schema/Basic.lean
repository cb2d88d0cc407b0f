import TagCatalog.Data.OrderedMap
import TagCatalog.Schema.ValueType

/-!
# Schemas

The tags that a catalog declares, each with the type of its values. Requests
may name tags that are not declared; nothing is known about their values, so
an interval on one of them stays an interval.

## Main definitions

* `TagDef`: What a catalog declares about a tag.
* `Schema`: The declared tags.
* `Schema.isTimestamp`: Whether a tag is declared to hold points in time.
* `Schema.allowsRange`: Whether a value of a tag may be read as an interval.
-/

namespace TagCatalog

/-- What a catalog declares about a tag. -/
structure TagDef where
  type : ValueType
  /-- Whether a subject can have several values. -/
  multivalue : Bool := false
  /-- Whether a value belongs to one subject only. -/
  unique : Bool := false
  deriving DecidableEq, Repr

/-- The declared tags. -/
abbrev Schema := OrderedMap String TagDef

namespace Schema

/-- The declared type of a tag. -/
def typeOf? (schema : Schema) (tag : String) : Option ValueType :=
  (schema.get? tag).map TagDef.type

/-- Whether a tag is declared to hold points in time. -/
def isTimestamp (schema : Schema) (tag : String) : Bool :=
  schema.typeOf? tag = some .timestamp

/-- Whether a value of a tag may be read as an interval. -/
def allowsRange (schema : Schema) (tag : String) : Bool :=
  (schema.typeOf? tag).all ValueType.isOrdered

/-- The tags whose values belong to one subject only, in order of their names. -/
def uniqueTags (schema : Schema) : List String :=
  ((schema.entries.filter fun e => e.2.unique).map Prod.fst).mergeSort (· ≤ ·)

end Schema

end TagCatalog
