import TagCatalog.Catalog.Error
import TagCatalog.Http.Basic
import TagCatalog.Number.Numeral

/-!
# Activities

What is done with a catalog on behalf of a person: requests are sent, the
person is told of some steps, and at last there is a result or a failure. What
was told before a failure stays told.

## Main definitions

* `Notice`: A step that the person is told of.
* `Report`: What came of an activity, and what was told.
* `Activity`: Requests that end in a report.
* `Activity.andThen`: One activity after another.
-/

namespace TagCatalog

/-- A step that the person is told of. -/
inductive Notice where
  | openingView (name : String)
  | previewShown (rows : Nat) (total : UInt64)
  | noQuery
  | valuesSet (tag clause : String)
  | valuesRemoved (tag clause : String)
  deriving DecidableEq, Repr

/-- The wording of a notice. -/
def Notice.message : Notice → String
  | openingView name => "Opening view " ++ name
  | previewShown rows total =>
    "Preview shows " ++ String.ofList (Numeral.ofNat rows) ++ " of " ++
      String.ofList (Numeral.ofNat total.toNat) ++ " rows"
  | noQuery => "Link carries no query"
  | valuesSet tag clause => "Set " ++ tag ++ " on subjects matching " ++ clause
  | valuesRemoved tag clause => "Removed " ++ tag ++ " from subjects matching " ++ clause

/-- What came of an activity, and what was told. -/
structure Report (α : Type) where
  notices : List Notice := []
  result : Except CatalogError α

-- Nothing is derived here: `Except` has no decidable equality to derive it from.
instance {α : Type} [DecidableEq α] : DecidableEq (Report α)
  | ⟨told, .ok a⟩, ⟨told', .ok b⟩ =>
    decidable_of_iff (told = told' ∧ a = b) (by rw [Report.mk.injEq, Except.ok.injEq])
  | ⟨told, .error e⟩, ⟨told', .error f⟩ =>
    decidable_of_iff (told = told' ∧ e = f) (by rw [Report.mk.injEq, Except.error.injEq])
  | ⟨_, .ok _⟩, ⟨_, .error _⟩ | ⟨_, .error _⟩, ⟨_, .ok _⟩ => isFalse fun h => nomatch h

/-- Requests that end in a report. -/
abbrev Activity (α : Type) := Http.Call (Report α)

namespace Activity

variable {α β : Type}

/-- Requests of which the person is told nothing. -/
def quiet (call : Http.Call (Except CatalogError α)) : Activity α :=
  call.bind fun result => .done { result }

/-- A result that takes no request. -/
def known (result : Except CatalogError α) : Activity α := .done { result }

/-- Tell of a step before an activity. -/
def telling (notice : Notice) (a : Activity α) : Activity α :=
  a.bind fun report => .done { report with notices := notice :: report.notices }

/-- One activity after another, unless the first one fails. -/
def andThen (a : Activity α) (next : α → Activity β) : Activity β :=
  a.bind fun report =>
    match report.result with
    | .error e => .done { notices := report.notices, result := .error e }
    | .ok value =>
      (next value).bind fun r => .done { r with notices := report.notices ++ r.notices }

end Activity

end TagCatalog
