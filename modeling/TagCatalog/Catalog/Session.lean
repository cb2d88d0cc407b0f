import TagCatalog.Address.Link
import TagCatalog.Catalog.Activity
import TagCatalog.Catalog.Settings
import TagCatalog.View.Action

/-!
# Sessions

A view opened for a person: the one that a link carries, or else the one that
the settings name. A link that names no columns is given those of the settings'
view, too.

## Main definitions

* `Session`: An open view and all that its requests need.
* `Session.ofLink`: A session as a link alone describes it.
* `Session.start`: The session for a link.
* `Session.addressing`: The settings for addresses of the view.
-/

namespace TagCatalog

/-- An open view and all that its requests need. -/
structure Session where
  settings : Settings
  schema : Schema
  zone : Zone
  view : View
  /-- What the addresses of the view begin with. -/
  base : String
  versions : Versions

namespace Session

/-- The settings for addresses of the view. -/
def addressing (s : Session) : Addressing :=
  { base := s.base
    schema := s.schema
    zone := s.zone
    options := { versions := s.versions, limit := some .unlimited } }

/-- A session that shows a request. -/
def ofQuery (settings : Settings) (schema : Schema) (zone : Zone) (q : Query) : Session :=
  { settings
    schema
    zone
    view := .ofQuery q settings.pageSize
    base := if q.base.isEmpty then settings.subjectBase else q.base
    versions := q.options.versions }

/-- A session that shows nothing yet. -/
def blank (settings : Settings) (schema : Schema) (zone : Zone) : Session :=
  { settings
    schema
    zone
    view := .new settings.pageSize
    base := settings.subjectBase
    versions := settings.versions }

/-- A session as a link alone describes it. -/
def ofLink (settings : Settings) (schema : Schema) (zone : Zone) (link : Option String) :
    Session :=
  match link.bind fun l => (Reading.mk schema zone).linkedQuery? l.toList with
  | some q => ofQuery settings schema zone q
  | none => blank settings schema zone

/-- A session with more columns in front of its view. -/
def withColumns (s : Session) (columns : List String) : Session :=
  { s with view := (s.view.addColumns columns .prepend).1 }

/-- The session for a link. -/
def start (settings : Settings) (zone : Zone) (link : Option String) : Activity Session :=
  (Activity.quiet settings.client.schema).andThen fun schema =>
    let session := ofLink settings schema zone link
    if session.view.columns.isEmpty then
      .telling (.openingView settings.defaultView) <|
        (Activity.quiet (settings.client.viewColumns settings.defaultView)).andThen fun columns =>
          .known (.ok (session.withColumns columns))
    else .known (.ok session)

/-- The clause that the subjects of the view meet. -/
def clause? (s : Session) : Except CatalogError String :=
  match s.addressing.clause? s.view.filter with
  | .ok cs => .ok (String.ofList cs)
  | .error e => .error (.view (.address e))

end Session

end TagCatalog
