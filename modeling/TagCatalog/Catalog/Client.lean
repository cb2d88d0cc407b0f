import TagCatalog.Address.Mutation
import TagCatalog.Catalog.Cell
import TagCatalog.Catalog.Error
import TagCatalog.Http.Retry
import TagCatalog.Schema.Document
import TagCatalog.View.PickList

/-!
# The Catalog's Client

What a catalog can be asked: its schema, the columns of its views, rows of
subjects, and changes of tag values.

## Main definitions

* `Client`: Where a catalog is and how often to retry.
* `Client.fetch`: What the document under an address holds.
* `Client.schema`, `Client.viewColumns`: What the catalog knows of its tags.
* `Client.setValues`, `Client.deleteValues`: Changes of tag values.
* `Client.answer`: Questions about the values of a tag.
-/

namespace TagCatalog

open Json Text

/-- Where a catalog is and how often to retry. -/
structure Client where
  /-- The root of the catalog's addresses, without a slash at its end. -/
  home : String
  /-- How often a request is sent again, at most. As a word of 32 bits this is less
      than the greatest one, with which counting the attempts would overflow. -/
  retries : Nat
  deriving DecidableEq, Repr

/-- A root without the slashes at its end. -/
def withoutSlashes (url : String) : String :=
  String.ofList (url.toList.reverse.dropWhile (· = '/')).reverse

/-- The address of the catalog's schema. -/
def schemaAddress (home : String) : String :=
  home ++ "/subject/tagdef(" ++
    String.ofList (joinWith ';' (tagDefFields.map fun f => escape f.1)) ++ ")?limit=none"

/-- The address of the columns of a view. -/
def viewAddress (home name : String) : String :=
  home ++ "/subject/view=" ++
    String.ofList (escape name ++ '(' :: escape "view tags" ++ [')'])

namespace Client

/-- The client of the catalog under an address. -/
def ofUrl (url : String) (retries : Nat) : Client := ⟨withoutSlashes url, retries⟩

/-- A request that has to succeed. -/
def request (c : Client) (method : Http.Method) (url : String) :
    Http.Call (Except CatalogError Http.Response) :=
  (Http.send ⟨method, url⟩ c.retries).bind fun reply => .done (reply.success url)

/-- What the document under an address holds. -/
def fetch {α : Type} (c : Client) (read : Document → Option α) (url : String) :
    Http.Call (Except CatalogError α) :=
  (c.request .get url).bind fun r => .done <| r.bind fun r =>
    match (Document.parse? r.body.toList).bind read with
    | some a => .ok a
    | none => .error (.response url "error decoding response body")

/-- The rows under an address. -/
def rows (c : Client) (url : String) : Http.Call (Except CatalogError (List Row)) :=
  c.fetch Row.rowsOfDocument? url

/-- A request whose response holds nothing of interest. -/
def change (c : Client) (method : Http.Method) (url : String) :
    Http.Call (Except CatalogError Unit) :=
  (c.request method url).bind fun r => .done (r.map fun _ => ())

/-- The schema of the catalog. -/
def schema (c : Client) : Http.Call (Except CatalogError Schema) :=
  c.fetch Schema.ofDocument? (schemaAddress c.home)

/-- The columns that a row about a view names, if it does. -/
def columnsOfDocument? (d : Document) : Option (Option (List String)) := do
  match ← d.record? [("view tags", .defaulted)] with
  | [tags] => Document.field? (Document.optional? (Document.list? Document.text?)) none tags
  | _ => none

/-- The columns of a view, in order. A view that is not known has none. -/
def viewColumns (c : Client) (name : String) : Http.Call (Except CatalogError (List String)) :=
  (c.fetch (Document.list? columnsOfDocument?) (viewAddress c.home name)).bind fun r =>
    .done (r.map fun rows => (rows.findSome? id).getD [])

/-- Add values of a tag to the subjects that meet a clause. -/
def setValues (c : Client) (clause tag : String) (values : List String) :
    Http.Call (Except CatalogError Unit) :=
  c.change .put (mutationAddress c.home clause tag values)

/-- Remove values of a tag, or all of them when none is named. -/
def deleteValues (c : Client) (clause tag : String) (values : List String) :
    Http.Call (Except CatalogError Unit) :=
  c.change .delete (mutationAddress c.home clause tag values)

/-- The number of values or rows that an address asks for. -/
def count (c : Client) (url tag : String) : Http.Call (Except CatalogError UInt64) :=
  (c.rows url).bind fun r => .done <| r.bind fun rows =>
    match Row.countOf? rows tag with
    | some n => .ok n
    | none => .error (.response url ("no count for '" ++ tag ++ "'"))

/-- The values of a tag that an address asks for. -/
def values (c : Client) (url tag : String) : Http.Call (Except CatalogError (List String)) :=
  (c.rows url).bind fun r => .done (r.map fun rows => Row.valuesOf rows tag)

/-- Questions about the values of a tag. -/
def answer (c : Client) : (q : ValueQuestion) → Http.Call (q.Answer CatalogError)
  | .count url tag => c.count url tag
  | .values url tag => c.values url tag

/-- The values of a tag to pick from, in the rows of a view. -/
def pickList (c : Client) (v : View) (a : Addressing) (tag : String) (limit : UInt64) :
    Http.Call (Except CatalogError PickList) :=
  ((v.pickList a tag limit).translate c.answer).bind fun
    | .ok p => .done (.ok p)
    | .error (.view e) => .done (.error (.view e))
    | .error (.source e) => .done (.error e)

end Client

end TagCatalog
