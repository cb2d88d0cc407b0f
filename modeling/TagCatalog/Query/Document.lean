import TagCatalog.Json.Printer
import TagCatalog.Json.Record
import TagCatalog.Query.Basic

/-!
# Queries as Documents

How a query is kept as a document, and read from one. A filter is an object
with the tags as names, in their order; where a tag stands there twice the
last conditions count, at the place of the first. Conditions without values
leave the values out.

## Main definitions

* `Query.value`: The document of a query.
* `Query.ofDocument?`: The query that a document is.
* `Predicate.value`, `Predicate.ofDocument?`: The same for a condition.
-/

namespace TagCatalog

open Json

/-- The name of an operator in a document. -/
def Operator.key : Operator → String
  | tagged => "tagged"
  | absent => "absent"
  | eq => "eq"
  | neq => "neq"
  | less => "less"
  | lessEq => "less_eq"
  | greater => "greater"
  | greaterEq => "greater_eq"
  | like => "like"
  | similarTo => "similar_to"
  | regex => "regex"
  | notRegex => "not_regex"
  | ciRegex => "ci_regex"
  | notCiRegex => "not_ci_regex"
  | between => "between"
  | unset => "none"

/-- The operator with a name. -/
def Operator.ofKey? (key : String) : Option Operator :=
  Operator.all.find? fun op => op.key = key

/-- The name of a direction in a document. -/
def Direction.key : Direction → String
  | asc => "asc"
  | desc => "desc"

/-- The direction with a name. -/
def Direction.ofKey? (key : String) : Option Direction :=
  [asc, desc].find? fun d => d.key = key

/-- The name of some versions in a document. -/
def Versions.key : Versions → String
  | latest => "latest"
  | any => "any"

/-- The versions with a name. -/
def Versions.ofKey? (key : String) : Option Versions :=
  [latest, any].find? fun v => v.key = key

/-- The name of what is told about values in a document. -/
def RangeMode.key : RangeMode → String
  | count => "count"
  | values => "values"

/-- What is told about values, by name. -/
def RangeMode.ofKey? (key : String) : Option RangeMode :=
  [count, values].find? fun m => m.key = key

/-! ## Writing -/

/-- The document of a condition. -/
def Predicate.value (p : Predicate) : Value :=
  .object <| ("op", .text p.op.key) ::
    if p.values.isEmpty then [] else [("values", Value.ofTexts p.values)]

/-- The document of a filter. -/
def Filter.value (filter : Filter) : Value :=
  .object (filter.entries.map fun (tag, ps) => (tag, .array (ps.map Predicate.value)))

/-- The document of a sort key. -/
def SortKey.value (key : SortKey) : Value :=
  .object [("name", .text key.name), ("direction", .text key.direction.key)]

/-- The document of a limit. -/
def Limit.value : Limit → Value
  | rows n => .object [("rows", Value.ofWord n.rows)]
  | unlimited => .text "unlimited"

/-- The document of some options. -/
def Options.value (o : Options) : Value :=
  .object
    [("versions", .text o.versions.key),
      ("limit", (o.limit.map Limit.value).getD .null),
      ("offset", (o.offset.map Value.ofWord).getD .null),
      ("range", (o.range.map fun m => .text m.key).getD .null)]

/-- The document of a query. -/
def Query.value (q : Query) : Value :=
  .object
    [("base", .text q.base),
      ("filter", q.filter.value),
      ("columns", Value.ofTexts q.columns),
      ("sort", .array (q.sort.map SortKey.value)),
      ("options", q.options.value)]

/-! ## Reading -/

/-- The condition that a document is. -/
def Predicate.ofDocument? (d : Document) : Option Predicate := do
  match ← d.record? [("op", .required), ("values", .defaulted)] with
  | [some op, values] =>
    let op ← op.choice?.bind Operator.ofKey?
    let values ← Document.field? (Document.list? Document.text?) [] values
    some ⟨op, values⟩
  | _ => none

/-- The filter that a document is. -/
def Filter.ofDocument? (d : Document) : Option Filter :=
  (d.members? (Document.list? Predicate.ofDocument?)).map OrderedMap.ofList

/-- The sort key that a document is. -/
def SortKey.ofDocument? (d : Document) : Option SortKey := do
  match ← d.record? [("name", .required), ("direction", .required)] with
  | [some name, some direction] =>
    let name ← name.text?
    let direction ← direction.choice?.bind Direction.ofKey?
    some ⟨name, direction⟩
  | _ => none

/-- The limit that a document is. -/
def Limit.ofDocument? (d : Document) : Option Limit :=
  match d with
  | .object [(some "rows", n)] => ((Document.word? n).bind PageSize.ofWord?).map .rows
  | d => if d.choice? = some "unlimited" then some .unlimited else none

/-- The options that a document is. -/
def Options.ofDocument? (d : Document) : Option Options := do
  match ← d.record?
      [("versions", .required), ("limit", .nullable), ("offset", .nullable), ("range", .nullable)]
    with
  | [some versions, limit, offset, range] =>
    let versions ← versions.choice?.bind Versions.ofKey?
    let limit ← Document.field? (Document.optional? Limit.ofDocument?) none limit
    let offset ← Document.field? (Document.optional? Document.word?) none offset
    let range ←
      Document.field? (Document.optional? fun d => d.choice?.bind RangeMode.ofKey?) none range
    some { versions, limit, offset, range }
  | _ => none

/-- The query that a document is. -/
def Query.ofDocument? (d : Document) : Option Query := do
  match ← d.record?
      [("base", .required), ("filter", .required), ("columns", .required), ("sort", .required),
        ("options", .required)]
    with
  | [some base, some filter, some columns, some sort, some options] =>
    let base ← base.text?
    let filter ← Filter.ofDocument? filter
    let columns ← columns.list? Document.text?
    let sort ← sort.list? SortKey.ofDocument?
    let options ← Options.ofDocument? options
    some { base, filter, columns, sort, options }
  | _ => none

end TagCatalog
