import TagCatalog.Address.Basic
import TagCatalog.Text.Percent
import TagCatalog.Text.Split

/-!
# Writing Addresses

The address of a request is the base, the conditions, the columns in
parentheses, the sort keys, and the options behind a question mark:

    base tag=value;tag:geq:value (column;column) column:asc:,column:desc: ?versions=latest

(without the blanks). Names and values are percent-coded, so none of the marks
between them can come from inside one.

An interval is one value, `(low,high)` with its parentheses and its comma
coded, under the mark of equality.

## Main definitions

* `Predicate.item`: A condition on a tag.
* `Addressing.clause?`: The conditions of a filter.
* `Addressing.address?`: The address of a request.
-/

namespace TagCatalog

open Text

/-- A condition on a tag, where `suffix` follows every value. -/
def Predicate.item (suffix tag : String) : Predicate → List Char
  | ⟨.between, [low, high]⟩ =>
    escape tag ++ '=' :: escape ("(" ++ low ++ suffix ++ "," ++ high ++ suffix ++ ")")
  | ⟨op, values⟩ =>
    escape tag ++ op.mark ++ joinWith ',' (values.map fun v => escape (v ++ suffix))

/-- A sort key. -/
def SortKey.item (key : SortKey) : List Char :=
  escape key.name ++ key.direction.mark

/-- The word that stands for the versions. -/
def Versions.word : Versions → List Char
  | latest => "latest".toList
  | any => "any".toList

/-- The word that stands for what is told about values. -/
def RangeMode.word : RangeMode → List Char
  | count => "count".toList
  | values => "values".toList

/-- The word that stands for a limit. -/
def Limit.word : Limit → List Char
  | rows n => Numeral.ofNat n.rows.toNat
  | unlimited => "none".toList

/-- The options behind the question mark. Values are not cut into pages, so
    there is no limit and no offset beside a range. -/
def Options.tail (o : Options) : List Char :=
  "?versions=".toList ++ o.versions.word ++
    match o.range with
    | some mode => "&range=".toList ++ mode.word
    | none =>
      (match o.limit with
        | some limit => "&limit=".toList ++ limit.word
        | none => []) ++
      (match o.offset with
        | some offset => "&offset=".toList ++ Numeral.ofNat offset.toNat
        | none => [])

namespace Addressing

/-- The conditions that are written, each with its tag: those that have been
    chosen, on other tags than the excluded one. -/
def conditions (a : Addressing) (filter : Filter) : List (String × Predicate) :=
  filter.entries.flatMap fun (tag, predicates) =>
    if a.excluded = some tag then []
    else (predicates.filter fun p => !p.isUnset).map fun p => (tag, p)

/-- What is wrong with the first condition that has a wrong number of values. -/
def fault? (conditions : List (String × Predicate)) : Option AddressError :=
  conditions.findSome? fun (tag, p) =>
    if p.hasValidArity then none else some (.arity tag p.op p.values.length)

/-- The conditions of a filter. -/
def clause? (a : Addressing) (filter : Filter) : Except AddressError (List Char) :=
  let conditions := a.conditions filter
  match fault? conditions with
  | some e => .error e
  | none => .ok (joinWith ';' (conditions.map fun (tag, p) => p.item (a.suffix tag) tag))

/-- The address of a request. -/
def address? (a : Addressing) (filter : Filter) (columns : List String) (sort : List SortKey) :
    Except AddressError (List Char) :=
  if columns.isEmpty then .error .noColumns
  else
    match a.clause? filter with
    | .error e => .error e
    | .ok clause =>
      .ok (a.base.toList ++ clause ++ '(' :: joinWith ';' (columns.map escape) ++ ')' ::
        joinWith ',' (sort.map SortKey.item) ++ a.options.tail)

end Addressing

end TagCatalog
