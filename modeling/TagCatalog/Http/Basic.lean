import TagCatalog.Data.Exchange

/-!
# Requests and Responses

What is sent to a server and what comes back, as far as the catalog needs it.
Not every request gets a response: the server may be out of reach, or the
address may be none that a request can be sent to.

## Main definitions

* `Http.Request`: A request.
* `Http.Reply`: What comes back.
* `Http.Call`: A computation that sends requests.
-/

namespace TagCatalog

namespace Http

/-- What is to be done with what an address stands for. -/
inductive Method where
  | get
  | put
  | delete
  deriving DecidableEq, Repr

/-- The word for a method. -/
def Method.word : Method → String
  | get => "GET"
  | put => "PUT"
  | delete => "DELETE"

/-- A request. -/
structure Request where
  method : Method
  url : String
  deriving DecidableEq, Repr

/-- A response. -/
structure Response where
  status : Nat
  body : String
  headers : List (String × String) := []
  deriving DecidableEq, Repr

/-- The value of the first header with a name, whatever the case of its letters. -/
def Response.header? (r : Response) (name : String) : Option String :=
  let lower (s : String) := s.toList.map Char.toLower
  (r.headers.find? fun h => lower h.1 = lower name).map Prod.snd

/-- Why a request was not answered. -/
inductive Unanswered where
  /-- There is no way to the server; `url` is the normal form of the address. -/
  | unreachable (url : String)
  /-- The address is none that a request can be sent to. -/
  | unsendable
  deriving DecidableEq, Repr

/-- The wording of a reason. -/
def Unanswered.message : Unanswered → String
  | unreachable url => "error sending request for url (" ++ url ++ ")"
  | unsendable => "builder error"

/-- What comes back for a request. -/
inductive Reply where
  | response (r : Response)
  | unanswered (reason : Unanswered)
  deriving DecidableEq, Repr

/-- A computation that sends requests. -/
abbrev Call (α : Type) := Exchange Request (fun _ => Reply) α

end Http

end TagCatalog
