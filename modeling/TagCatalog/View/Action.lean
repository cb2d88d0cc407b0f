import TagCatalog.View.Basic

/-!
# Actions on a View

What a person can do to a view. No action asks the catalog for anything; when
one is done, the requests of the view are written anew. An action that fails
leaves the view as it was.

## Main definitions

* `Action`: The actions.
* `Action.perform`: The view after an action, and whether it did something.
* `View.run`: The view after some actions.
-/

namespace TagCatalog

/-- Where new columns go. -/
inductive AddPolicy where
  /-- In front of the columns that are shown. -/
  | prepend
  /-- In place of the whole view. -/
  | replaceAll
  deriving DecidableEq, Repr

namespace View

/-- Give a tag conditions; without any, the tag is no longer constrained. -/
def setFilter (v : View) (tag : String) (predicates : List Predicate) : View :=
  if predicates.isEmpty then { v with filter := v.filter.erase tag }
  else { v with filter := v.filter.insert tag predicates }

/-- Show other columns from the first page on, without conditions and unsorted. -/
def replace (v : View) (columns : List String) : View :=
  { v with
    filter := .empty
    columns := distinct columns
    sort := []
    page := { v.page with index := 0 }
    edit := none }

/-- Add columns that are not shown yet. -/
def addColumns (v : View) (tags : List String) (policy : AddPolicy) : View × Bool :=
  let kept :=
    match policy with
    | .prepend => v
    | .replaceAll => { v with filter := .empty, columns := [], sort := [], edit := none }
  let added := distinct (tags.filter fun tag => !kept.columns.contains tag)
  ({ kept with columns := added ++ kept.columns }, !added.isEmpty)

/-- Remove a column, and with it its sort key. -/
def removeColumn (v : View) (tag : String) : View × Bool :=
  if v.columns.contains tag then
    ({ v with
        columns := v.columns.erase tag
        sort := v.sort.filter fun key => key.name ≠ tag }, true)
  else (v, false)

/-- Sort keys in which a tag has a direction. -/
def withDirection (tag : String) (direction : Direction) : List SortKey → List SortKey
  | [] => [⟨tag, direction⟩]
  | key :: r =>
    if key.name = tag then ⟨tag, direction⟩ :: r else key :: withDirection tag direction r

/-- Sort by a column in a direction, or no longer. -/
def setSort (v : View) (tag : String) (direction : Option Direction) : View × Bool :=
  if v.columns.contains tag then
    ({ v with
        sort :=
          match direction with
          | some d => withDirection tag d v.sort
          | none => v.sort.filter fun key => key.name ≠ tag }, true)
  else (v, false)

/-- Move a column to another place. Both places are looked at before a column
    moves, so a failure carries no view: it leaves the view as it was. -/
def reorderColumns (v : View) (source target : Nat) : Except ViewError View :=
  match v.columns[source]? with
  | none => .error (.columnIndex source v.columns.length)
  | some column =>
    if target < v.columns.length then
      .ok { v with columns := (v.columns.eraseIdx source).insertIdx target column }
    else .error (.columnIndex target v.columns.length)

/-- Begin to edit the conditions of a tag, at the first page. Only one edit
    can be open. -/
def beginEdit (v : View) (tag : String) : View × Bool :=
  match v.edit with
  | some _ => (v, false)
  | none =>
    let saved :=
      match v.filter.position? tag, v.filter.get? tag with
      | some i, some predicates => some (i, predicates)
      | _, _ => none
    ({ v with
        page := { v.page with index := 0 }
        edit := some ⟨tag, saved, v.page.index⟩ }, true)

/-- The conditions that are worth keeping: those with an operator and, where
    it takes any, with values. -/
def completed (predicates : List Predicate) : List Predicate :=
  predicates.filter fun p => !p.isUnset && (p.op.arity = .zero || !p.values.isEmpty)

/-- End an edit and keep the conditions, if all of them make sense. They are looked
    at before any of them is dropped and before the edit ends, so a failure carries
    no view: it leaves the conditions as they stand and the edit open. -/
def saveEdit (v : View) (schema : Schema) : Except ViewError View :=
  match v.edit with
  | none => .error .notEditing
  | some edit =>
    let predicates := completed ((v.filter.get? edit.tag).getD [])
    match predicates.findSome? (schema.misfit? edit.tag) with
    | some reason => .error (.invalidPredicate edit.tag reason)
    | none => .ok { v.setFilter edit.tag predicates with edit := none }

/-- End an edit and put back the conditions and the page. -/
def cancelEdit (v : View) : View × Bool :=
  match v.edit with
  | none => (v, false)
  | some edit =>
    ({ v with
        filter :=
          match edit.saved with
          | some (i, predicates) => v.filter.place i edit.tag predicates
          | none => v.filter.erase edit.tag
        page := { v.page with index := edit.pageIndex }
        edit := none }, true)

end View

/-- What a person can do to a view. -/
inductive Action where
  | setFilter (tag : String) (predicates : List Predicate)
  | clearFilter (tag : String)
  | clearAllFilters
  | replace (columns : List String)
  | addColumns (tags : List String) (policy : AddPolicy)
  | removeColumn (tag : String)
  | setSort (tag : String) (direction : Option Direction)
  | reorderColumns (source target : Nat)
  | setPage (index : UInt64)
  | nextPage
  | previousPage
  | setPageSize (size : PageSize)
  | beginEdit (tag : String)
  | saveEdit (schema : Schema)
  | cancelEdit

/-- The view after an action, and whether it did something where that is not
    certain. -/
def Action.perform (v : View) : Action → Except ViewError (View × Option Bool)
  | setFilter tag predicates => .ok (v.setFilter tag predicates, none)
  | clearFilter tag => .ok ({ v with filter := v.filter.erase tag }, v.filter.contains tag)
  | clearAllFilters => .ok ({ v with filter := .empty }, none)
  | replace columns => .ok (v.replace columns, none)
  | addColumns tags policy => .ok ((v.addColumns tags policy).map id some)
  | removeColumn tag => .ok ((v.removeColumn tag).map id some)
  | setSort tag direction => .ok ((v.setSort tag direction).map id some)
  | reorderColumns source target => (v.reorderColumns source target).map fun w => (w, none)
  | setPage index => .ok ({ v with page := { v.page with index } }, none)
  | nextPage => .ok ({ v with page := v.page.next }, none)
  | previousPage => .ok ({ v with page := v.page.previous }, none)
  | setPageSize size => .ok ({ v with page := v.page.resize size }, none)
  | beginEdit tag => .ok ((v.beginEdit tag).map id some)
  | saveEdit schema => (v.saveEdit schema).map fun w => (w, none)
  | cancelEdit => .ok (v.cancelEdit.map id some)

/-- The view after an action, which is the old one if the action fails. -/
def View.after (v : View) (action : Action) : View :=
  match action.perform v with
  | .ok (w, _) => w
  | .error _ => v

/-- The view after some actions. -/
def View.run (v : View) (actions : List Action) : View :=
  actions.foldl View.after v

end TagCatalog
