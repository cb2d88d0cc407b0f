import TagCatalog.Address.Basic
import TagCatalog.Data.Distinct
import TagCatalog.View.Constraint

/-!
# Table Views

What a person looks at: some columns of the subjects that meet a filter,
sorted, and one page of them. While the conditions of a tag are being edited
the view remembers how they were, so that the edit can be given up.

## Main definitions

* `Edit`: An edit of the conditions of a tag.
* `View`: A table view.
* `View.ofQuery`: The view that shows a request.
* `ViewError`: How an operation on a view can fail.
-/

namespace TagCatalog

/-- How an operation on a view can fail. -/
inductive ViewError where
  | address (error : AddressError)
  | columnIndex (index count : Nat)
  | notEditing
  | invalidPredicate (tag : String) (reason : Misfit)
  deriving DecidableEq, Repr

/-- The wording of a failure. -/
def ViewError.message : ViewError → String
  | address e => "failed to build request url: " ++ e.message
  | columnIndex index count =>
    "column index " ++ String.ofList (Numeral.ofNat index) ++ " is out of range for " ++
      String.ofList (Numeral.ofNat count) ++ " columns"
  | notEditing => "no filter edit is in progress"
  | invalidPredicate tag reason =>
    "invalid constraint on '" ++ tag ++ "': " ++ reason.message

/-- An edit of the conditions of a tag, with what was there when it began. -/
structure Edit where
  tag : String
  /-- The position and the conditions of the tag, if it had any. -/
  saved : Option (Nat × List Predicate)
  /-- The page that was shown. -/
  pageIndex : UInt64
  deriving DecidableEq

/-- A table view. -/
structure View where
  filter : Filter := .empty
  columns : List String := []
  sort : List SortKey := []
  page : Page
  edit : Option Edit := none
  deriving DecidableEq

namespace View

/-- A view without columns, at its first page. -/
def new (size : PageSize) : View :=
  { page := ⟨0, size⟩ }

/-- The tag whose conditions are being edited. -/
def editing (v : View) : Option String := v.edit.map Edit.tag

/-- The view that shows a request. Columns are shown once, and only columns
    are sorted by. -/
def ofQuery (q : Query) (size : PageSize) : View :=
  let columns := distinct q.columns
  { filter := q.filter
    columns
    sort := distinctBy SortKey.name (q.sort.filter fun key => columns.contains key.name)
    page := q.page size }

/-- The place of a tag among the sort keys, from one. -/
def sortPrecedence? (v : View) (tag : String) : Option Nat :=
  (v.sort.findIdx? fun key => key.name = tag).map (· + 1)

end View

end TagCatalog
