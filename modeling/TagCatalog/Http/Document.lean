import TagCatalog.Http.Basic
import TagCatalog.Json.Record

/-!
# Responses as Documents

A response can be written down as a record of its status, its body and its
headers. A success without content is written as an empty record.

## Main definitions

* `Http.Response.ofDocument?`: The response that a document describes.
* `Http.Reply.ofLine`: The reply that a line describes.
-/

namespace TagCatalog

namespace Http

open Json

/-- A name with its value. -/
def headerOfDocument? : Document → Option (String × String)
  | .array [.text (some name), .text (some value)] => some (name, value)
  | _ => none

/-- The response that a document describes. -/
def Response.ofDocument? (d : Document) : Option Response := do
  match ← d.record? [("status", .defaulted), ("body", .defaulted), ("headers", .defaulted)] with
  | [status, body, headers] =>
    let status ← Document.field? Document.word? 200 status
    let body ← Document.field? Document.text? "" body
    let headers ← Document.field? (Document.list? headerOfDocument?) [] headers
    some ⟨status.toNat, body, headers⟩
  | _ => none

/-- The reply to a request that a line describes; any other line stands for a
    server out of reach. -/
def Reply.ofLine (r : Request) (line : List Char) : Reply :=
  match (Document.parse? line).bind Response.ofDocument? with
  | some found => .response found
  | none => .unanswered (.unreachable r.url)

end Http

end TagCatalog
