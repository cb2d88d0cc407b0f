import TagCatalog.Address.Basic
import TagCatalog.Address.Interval
import TagCatalog.Text.Percent
import TagCatalog.Text.Split

/-!
# Reading Addresses

Every text can be read as the address of a request. Where the text is no
address, each part falls back to the nearest thing that has a meaning: an item
that is no condition names a tag that has to be present, a sort key with an
unknown direction sorts upwards, an option that is not understood is unset.

## Main definitions

* `AddressParts`: The parts of an address between its marks.
* `Reading`: What has to be known to read values.
* `Reading.query`: The request that an address stands for.
-/

namespace TagCatalog

open Text

/-- A character that is no mark of the grammar. -/
def isPlain (c : Char) : Bool :=
  !(";,()=:!?&".toList.contains c)

/-- The parts of an address between its marks. -/
structure AddressParts where
  base : List Char
  clause : List Char
  /-- The text between the parentheses, if there are any. -/
  columns : Option (List Char)
  sort : List Char
  options : List Char
  deriving DecidableEq

/-- Cut an address into its parts. The options start at the first question
    mark, the columns at the first parenthesis before it, and the base ends
    with the last slash before that. -/
def AddressParts.ofAddress (address : List Char) : AddressParts :=
  let (path, options) := (cut? '?' address).getD (address, [])
  let head := path.takeWhile (· ≠ '(')
  let rest := path.dropWhile (· ≠ '(')
  let (columns, sort) :=
    match (stripStart? ['('] rest).bind (cut? ')') with
    | some (columns, sort) => (some columns, sort)
    | none => (none, rest)
  let (base, clause) := throughLast '/' head
  { base, clause, columns, sort, options }

/-- The pieces between separators that hold something. -/
def filledPieces (sep : Char) (cs : List Char) : List (List Char) :=
  (splitOn sep cs).filter fun piece => !piece.isEmpty

/-- The operators with a mark, such that no mark is tried after another one
    that it starts with. -/
def markedOperators : List Operator :=
  [.notCiRegex, .ciRegex, .notRegex, .regex, .similarTo, .like, .greaterEq, .greater, .lessEq,
    .less, .neq, .eq, .absent]

/-- The operator at the start of a text, and the text behind it. -/
def operatorAtStart? (cs : List Char) : Option (Operator × List Char) :=
  markedOperators.findSome? fun op => (stripStart? op.mark cs).map fun r => (op, r)

/-- A condition before its name and values are decoded: a plain name, and
    perhaps an operator with plain values. -/
def conditionParts? (item : List Char) :
    Option (List Char × Option (Operator × List (List Char))) :=
  let name := item.takeWhile isPlain
  let rest := item.dropWhile isPlain
  if name.isEmpty then none
  else if rest.isEmpty then some (name, none)
  else
    match operatorAtStart? rest with
    | none => none
    | some (op, r) =>
      if op.arity = .zero then
        if r.isEmpty then some (name, some (op, [])) else none
      else
        let values := splitOn ',' r
        if values.all (·.all isPlain) then some (name, some (op, values)) else none

/-- What has to be known to read values. -/
structure Reading where
  schema : Schema
  /-- The zone whose suffix is taken from points in time. -/
  zone : Zone := .utc

namespace Reading

/-- A value without the suffix of the zone. -/
def strip (r : Reading) (tag : String) (value : List Char) : String :=
  String.ofList <|
    if r.schema.isTimestamp tag then (stripEnd? r.zone.suffix.toList value).getD value else value

/-- The condition of an operator with values. One value under the mark of
    equality is an interval if it has the form of one and the tag allows it. -/
def predicate (r : Reading) (tag : String) (op : Operator) (values : List String) : Predicate :=
  let plain := ⟨op, values.map fun v => r.strip tag v.toList⟩
  match op, values with
  | .eq, [value] =>
    if r.schema.allowsRange tag then
      match Interval.read? value.toList with
      | some (low, high) => .between (r.strip tag low) (r.strip tag high)
      | none => plain
    else plain
  | _, _ => plain

/-- The tag and the condition that an item stands for. -/
def condition (r : Reading) (item : List Char) : String × Predicate :=
  match conditionParts? item with
  | none => (unescape item, .tagged)
  | some (name, none) => (unescape name, .tagged)
  | some (name, some (op, values)) =>
    (unescape name, r.predicate (unescape name) op (values.map unescape))

/-- The conditions of a clause, gathered by tag. -/
def filter (r : Reading) (clause : List Char) : Filter :=
  (filledPieces ';' clause).foldl (fun filter item =>
    let (tag, p) := r.condition item
    filter.update tag fun ps => ps.getD [] ++ [p]) .empty

end Reading

/-- The column and direction that an item stands for. -/
def SortKey.ofItem (item : List Char) : SortKey :=
  let name := item.takeWhile isPlain
  let rest := item.dropWhile isPlain
  if !name.isEmpty && (rest.isEmpty || rest = Direction.asc.mark) then ⟨unescape name, .asc⟩
  else if !name.isEmpty && rest = Direction.desc.mark then ⟨unescape name, .desc⟩
  else ⟨unescape (item.takeWhile (· ≠ ':')), .asc⟩

/-- The options after one more name and value. -/
def Options.set (o : Options) (name value : List Char) : Options :=
  if name = "versions".toList then
    { o with versions := if value = "any".toList then .any else .latest }
  else if name = "limit".toList then
    { o with
      limit :=
        if value = "none".toList then some .unlimited
        else ((Numeral.word? value).bind PageSize.ofWord?).map .rows }
  else if name = "offset".toList then { o with offset := Numeral.word? value }
  else if name = "range".toList then
    { o with
      range :=
        if value = "count".toList then some .count
        else if value = "values".toList then some .values
        else none }
  else o

/-- The options behind a question mark; the last of a name counts. -/
def Options.ofTail (tail : List Char) : Options :=
  ((splitOn '&' tail).filterMap (cut? '=')).foldl (fun o (name, value) => o.set name value) {}

/-- The request that an address stands for. -/
def Reading.query (r : Reading) (address : List Char) : Query :=
  let parts := AddressParts.ofAddress address
  { base := String.ofList parts.base
    filter := r.filter parts.clause
    columns := (filledPieces ';' (parts.columns.getD [])).map unescape
    sort := (filledPieces ',' parts.sort).map SortKey.ofItem
    options := .ofTail parts.options }

end TagCatalog
