import TagCatalog.Address.Mutation
import TagCatalog.Catalog.Preview
import TagCatalog.Catalog.Session
import TagCatalog.View.Document

/-!
# Commands

What a person can ask of the program. All commands but one open the view that
a link carries; those that change tag values do so on the subjects of that
view, or on subjects given by number.

## Main definitions

* `Command`: What a person can ask of the program.
* `Command.activity`: What is done for a command, and the text that is printed.
-/

namespace TagCatalog

open Json

/-- What a person can ask of the program. -/
inductive Command where
  /-- Print the query that a link carries. -/
  | decode (link : String)
  /-- Print the link to a view. -/
  | link (link : Option String)
  /-- Print a page of a view. -/
  | preview (link : Option String) (page : Option UInt64) (force : Bool)
  /-- Print the values of a tag in the rows of a view. -/
  | range (tag : String) (link : Option String)
  /-- Add values of a tag. -/
  | setTag (tag : String) (values : List String) (link : Option String) (ids : List String)
  /-- Remove values of a tag, or all of them. -/
  | deleteTag (tag : String) (values : List String) (link : Option String) (ids : List String)
  deriving DecidableEq, Repr

namespace Command

/-- A value as it is printed. -/
def printed (value : Value) : String := Value.pretty value ++ "\n"

/-- The link to the view of a session. -/
def linkTo (s : Session) : Except CatalogError String :=
  match s.view.bookmark? s.addressing with
  | .ok url => .ok (deepLink s.settings.home url ++ "\n")
  | .error e => .error (.view e)

/-- The clause that the subjects to be changed meet. -/
def target (s : Session) (ids : List String) : Except CatalogError String :=
  if ids.isEmpty then s.clause? else .ok (String.ofList (idClause ids))

/-- A page of the view of a session. -/
def previewOf (s : Session) (page : Option UInt64) (force : Bool) : Activity String :=
  let view :=
    match page with
    | some index => { s.view with page := { s.view.page with index } }
    | none => s.view
  (Activity.quiet ((s.settings.client.refresh {} view s.addressing force).bind fun r =>
      .done r.2)).andThen fun
    | none => .known (.ok "")
    | some p =>
      .telling (.previewShown p.rows.length p.total) (.known (.ok (printed p.value)))

/-- A change of the subjects of a session, of which the person is told. -/
def changeOf (s : Session) (ids : List String)
    (change : String → Http.Call (Except CatalogError Unit)) (notice : String → Notice) :
    Activity String :=
  (Activity.known (target s ids)).andThen fun clause =>
    (Activity.quiet (change clause)).andThen fun _ =>
      .telling (notice clause) (.known (.ok ""))

/-- What is done for a command, and the text that is printed. -/
def activity (settings : Settings) (zone : Zone) : Command → Activity String
  | decode l =>
    (Activity.quiet settings.client.schema).andThen fun schema =>
      match (Reading.mk schema zone).linkedQuery? l.toList with
      | some q => .known (.ok (printed q.value))
      | none => .telling .noQuery (.known (.ok ""))
  | link l =>
    (Session.start settings zone l).andThen fun s => .known (linkTo s)
  | preview l page force =>
    (Session.start settings zone l).andThen fun s => previewOf s page force
  | range tag l =>
    (Session.start settings zone l).andThen fun s =>
      (Activity.quiet
          (settings.client.pickList s.view s.addressing tag settings.pickLimit)).andThen fun p =>
        .known (.ok (printed p.value))
  | setTag tag values l ids =>
    (Session.start settings zone l).andThen fun s =>
      changeOf s ids (fun clause => settings.client.setValues clause tag values) (.valuesSet tag)
  | deleteTag tag values l ids =>
    (Session.start settings zone l).andThen fun s =>
      changeOf s ids (fun clause => settings.client.deleteValues clause tag values)
        (.valuesRemoved tag)

end Command

end TagCatalog
