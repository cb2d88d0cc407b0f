import TagCatalog.Catalog.Client

/-!
# Refreshing a View

Getting the rows that a view shows, and how many there are in all. A refresh
that would ask for the same rows as the last one is skipped, and a refresh
that is overtaken by a newer one gives up.

A refresh has three parts. It is issued, at which moment it becomes the latest
one and the one before is told to stop. It then asks the catalog, while other
refreshes may be issued. At last it settles: only the latest refresh delivers,
and a failed one may be repeated.

## Main definitions

* `Preview`: Rows of a view.
* `Refresher`: What is remembered between refreshes.
* `Refresher.issue`, `Refresher.settle`: The beginning and the end of a refresh.
* `Client.preview`: What is asked in between.
* `Client.refresh`: A refresh that nothing comes between.
-/

namespace TagCatalog

/-- Rows of a view, with the address that they come from and the number of
    rows on all pages. -/
structure Preview where
  url : String
  total : UInt64
  rows : List Row

/-- What a refresh asks for. -/
structure RefreshPlan where
  rows : String
  count : String
  deriving DecidableEq, Repr

/-- What a refresh of a view asks for. -/
def View.refreshPlan? (v : View) (a : Addressing) : Except ViewError RefreshPlan :=
  match v.rows? a, v.count? a with
  | .ok rows, .ok count => .ok ⟨rows, count⟩
  | .error e, _ | _, .error e => .error e

/-- The number of rows, and the rows unless there are none. -/
def Client.preview (c : Client) (plan : RefreshPlan) : Http.Call (Except CatalogError Preview) :=
  (c.count plan.count View.idColumn).bind fun
    | .error e => .done (.error e)
    | .ok total =>
      if total = 0 then .done (.ok ⟨plan.rows, total, []⟩)
      else (c.rows plan.rows).bind fun r => .done (r.map fun rows => ⟨plan.rows, total, rows⟩)

/-- What is remembered between refreshes. -/
structure Refresher where
  /-- The rows that were asked for last, unless that failed or was given up. -/
  lastUrl : Option String := none
  /-- How many refreshes have been issued. A counter of 64 bits begins again after
      `2 ^ 64` of them, which is left out: the number has no bound. -/
  generation : Nat := 0
  /-- The refresh that has to be told when a newer one is issued, by its number
      among all of them, again without a bound. -/
  token : Option Nat := none
  deriving DecidableEq, Repr

namespace Refresher

/-- Whether the rows under an address have been asked for last. -/
def isCurrent (r : Refresher) (rows : String) : Bool := r.lastUrl = some rows

/-- Begin a refresh: its number is the new generation. Nothing is begun when
    the rows have been asked for last, unless the refresh is forced. -/
def issue (r : Refresher) (rows : String) (force : Bool) : Option Refresher :=
  if !force && r.isCurrent rows then none
  else
    some
      { lastUrl := some rows
        generation := r.generation + 1
        token := some (r.generation + 1) }

/-- End a refresh with what it got: if it is no longer the latest one it gives
    up, and if it failed the same rows can be asked for again. -/
def settle (r : Refresher) (generation : Nat) (result : Except CatalogError Preview) :
    Refresher × Except CatalogError Preview :=
  if r.generation ≠ generation then (r, .error .superseded)
  else
    match result with
    | .ok preview => ({ r with token := none }, .ok preview)
    | .error e => ({ r with token := none, lastUrl := none }, .error e)

/-- Forget what was asked for last. -/
def invalidate (r : Refresher) : Refresher := { r with lastUrl := none }

end Refresher

/-- A refresh that nothing comes between; `none` when it is skipped. -/
def Client.refresh (c : Client) (r : Refresher) (v : View) (a : Addressing) (force : Bool) :
    Http.Call (Refresher × Except CatalogError (Option Preview)) :=
  match v.refreshPlan? a with
  | .error e => .done (r, .error (.view e))
  | .ok plan =>
    match r.issue plan.rows force with
    | none => .done (r, .ok none)
    | some r => (c.preview plan).bind fun result =>
      let (r, result) := r.settle r.generation result
      .done (r, result.map some)

end TagCatalog
