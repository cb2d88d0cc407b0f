import TagCatalog.Json.Printer
import TagCatalog.Json.Record
import TagCatalog.Schema.Basic

/-!
# Schemas as Documents

A catalog lists its tags as rows, one for each tag. Only the name has to be
there. Of two rows for one tag the later one counts.

## Main definitions

* `Schema.ofDocument?`: The schema that a list of rows is.
* `TagDef.value`: The document of what is declared about a tag.
-/

namespace TagCatalog

open Json

/-- The document of what is declared about a tag. -/
def TagDef.value (d : TagDef) : Value :=
  .object
    [("db_type", .text d.type.name), ("multivalue", .bool d.multivalue), ("unique", .bool d.unique)]

/-- The fields of a row. -/
def tagDefFields : List (String × Document.Presence) :=
  [("tagdef", .required), ("tagdef dbtype", .defaulted), ("tagdef multivalue", .defaulted),
    ("tagdef unique", .defaulted)]

/-- The tag that a row declares. -/
def TagDef.ofDocument? (d : Document) : Option (String × TagDef) := do
  match ← d.record? tagDefFields with
  | [some tag, type, multivalue, unique] =>
    let tag ← tag.text?
    let name ← Document.field? (Document.optional? Document.text?) none type
    let multivalue ← Document.field? Document.bool? false multivalue
    let unique ← Document.field? Document.bool? false unique
    some (tag, { type := .ofName (name.getD ""), multivalue, unique })
  | _ => none

/-- The schema that a list of rows is. -/
def Schema.ofDocument? (d : Document) : Option Schema :=
  (d.list? TagDef.ofDocument?).map OrderedMap.ofList

end TagCatalog
