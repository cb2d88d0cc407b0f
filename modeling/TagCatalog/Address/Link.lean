import TagCatalog.Address.Reader

/-!
# Links

A link leads to the catalog's page and carries the address of a request as the
parameter `query`, percent-coded as a whole.

## Main definitions

* `deepLink`: The link that carries an address.
* `carriedAddress?`: The address that a link carries.
* `Reading.linkedQuery?`: The request that a link carries.
-/

namespace TagCatalog

open Text

/-- The link to a catalog's page that carries an address. -/
def deepLink (home address : String) : String :=
  home ++ "/static?query=" ++ String.ofList (escapeComponent address)

/-- The address that a link carries: the value of its first parameter `query`.
    A text without a question mark is taken for the parameters alone. -/
def carriedAddress? (link : List Char) : Option String :=
  let parameters := ((cut? '?' link).map Prod.snd).getD link
  match ((splitOn '&' parameters).filterMap (cut? '=')).find? (·.1 = "query".toList) with
  | some (_, value) => if value.isEmpty then none else some (unescape value)
  | none => none

/-- The request that a link carries. -/
def Reading.linkedQuery? (r : Reading) (link : List Char) : Option Query :=
  (carriedAddress? link).map fun address => r.query address.toList

end TagCatalog
