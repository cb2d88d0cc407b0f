import TagCatalog.Address.Writer
import TagCatalog.View.Basic

/-!
# Requests of a View

The addresses under which the catalog is asked for what a view shows. While
an edit is open its tag is left out, so that unfinished conditions cannot
break a request, and rows are shown from the start.

## Main definitions

* `View.bookmark?`: The address that reopens a view.
* `View.rows?`: The page of rows that is shown, with the subjects' numbers.
* `View.count?`: How many rows there are on all pages.
* `View.range?`: What values a tag has in these rows.
-/

namespace TagCatalog

namespace View

/-- The column of the subjects' numbers. -/
def idColumn : String := "id"

/-- The settings for addresses of a view: the tag under edit is left out. -/
def settings (v : View) (a : Addressing) : Addressing :=
  { a with excluded := v.editing }

/-- The settings for addresses that ask for a page of rows. -/
def pageSettings (v : View) (a : Addressing) : Addressing :=
  { v.settings a with
    options :=
      { versions := a.options.versions
        limit := some (.rows v.page.size)
        offset := if v.edit.isSome then none else some v.page.offset
        range := none } }

/-- An address, or the failure to write it. -/
def address? (a : Addressing) (filter : Filter) (columns : List String) (sort : List SortKey) :
    Except ViewError String :=
  match a.address? filter columns sort with
  | .ok cs => .ok (String.ofList cs)
  | .error e => .error (.address e)

/-- The address that reopens a view. -/
def bookmark? (v : View) (a : Addressing) : Except ViewError String :=
  address? (v.pageSettings a) v.filter v.columns v.sort

/-- The address of the page of rows that is shown, with the subjects' numbers. -/
def rows? (v : View) (a : Addressing) : Except ViewError String :=
  let columns := if v.columns.contains idColumn then v.columns else v.columns ++ [idColumn]
  address? (v.pageSettings a) v.filter columns v.sort

/-- The address of what is to be told about the values of a tag. -/
def range? (v : View) (a : Addressing) (tag : String) (mode : RangeMode) :
    Except ViewError String :=
  let settings := v.settings a
  address? { settings with options := { settings.options with range := some mode } } v.filter
    [tag] []

/-- The address of the number of rows. -/
def count? (v : View) (a : Addressing) : Except ViewError String :=
  v.range? a idColumn .count

end View

end TagCatalog
