import TagCatalog.Http.Basic
import TagCatalog.Number.Numeral
import TagCatalog.Text.Percent
import TagCatalog.View.Basic

/-!
# Catalog Errors

How asking the catalog can fail, and which response is a failure. The server
may describe a failure in a header; the description is percent-coded.

## Main definitions

* `CatalogError`: How asking the catalog can fail.
* `Http.Response.failure?`: The failure that a response stands for.
-/

namespace TagCatalog

/-- How asking the catalog can fail. -/
inductive CatalogError where
  /-- A request was not answered. -/
  | request (url : String) (reason : Http.Unanswered)
  /-- A response with a status other than success. -/
  | status (url : String) (status : Nat) (body : String) (description : Option String)
  | unauthorized
  /-- A response that does not hold what was asked for. -/
  | response (url reason : String)
  | view (error : ViewError)
  /-- A newer request has taken the place of this one. -/
  | superseded
  deriving DecidableEq, Repr

/-- The wording of a failure. -/
def CatalogError.message : CatalogError → String
  | request url reason => "request to " ++ url ++ " failed: " ++ reason.message
  | status url code body description =>
    "status " ++ String.ofList (Numeral.ofNat code) ++ " from " ++ url ++ ": " ++
      description.getD body
  | unauthorized => "session is not authorized, log in again"
  | response url reason => "unexpected response from " ++ url ++ ": " ++ reason
  | view e => e.message
  | superseded => "refresh was superseded by a newer one"

namespace Http

/-- The header that describes a failure. -/
def descriptionHeader : String := "X-Error-Description"

/-- The description of a failure, if it is made of visible characters. -/
def Response.description? (r : Response) : Option String :=
  match r.header? descriptionHeader with
  | some value =>
    if value.toList.all fun c => c = '\t' || (0x20 ≤ c.toNat && c.toNat < 0x7F) then
      some (unescape value.toList)
    else none
  | none => none

/-- The failure that a response to an address stands for. -/
def Response.failure? (r : Response) (url : String) : Option CatalogError :=
  if 200 ≤ r.status ∧ r.status < 300 then none
  else if r.status = 401 ∨ r.status = 403 then some .unauthorized
  else some (.status url r.status r.body r.description?)

/-- The response that a reply is, if it is one of success. -/
def Reply.success (reply : Reply) (url : String) : Except CatalogError Response :=
  match reply with
  | unanswered reason => .error (.request url reason)
  | response r =>
    match r.failure? url with
    | some e => .error e
    | none => .ok r

end Http

end TagCatalog
