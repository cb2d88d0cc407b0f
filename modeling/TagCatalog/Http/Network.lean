import TagCatalog.Http.Basic
import TagCatalog.Http.Target

/-!
# Networks

What answers requests: a network in which the server can be reached or not.
A server that can be reached gives the responses that it has in store, one for
each request whatever it asks for, and then knows nothing more. Every request
that reaches it is noted.

## Main definitions

* `Http.Network`: What answers requests.
* `Http.Network.answer`: The reply to a request, and the network behind it.
* `Http.Network.run`: A computation against a network.
-/

namespace TagCatalog

namespace Http

/-- How the client calls itself in requests. -/
def agent : String := "Tagfiler/1.0"

/-- What answers requests. -/
structure Network where
  isReachable : Bool := false
  /-- The responses that the server has in store. -/
  responses : List Response := []
  /-- The requests that reached the server, the last one first. -/
  seen : List Request := []

/-- What a server responds that has nothing in store. -/
def Response.nothing : Response := ⟨404, "", []⟩

/-- How a request is noted. -/
def Request.note (r : Request) : String := r.method.word ++ " " ++ r.url ++ " [" ++ agent ++ "]"

namespace Network

/-- The reply to a request, and the network behind it. -/
def answer (r : Request) (n : Network) : Reply × Network :=
  match Target.ofChars? r.url.toList with
  | none => (.unanswered .unsendable, n)
  | some target =>
    let url := String.ofList target.chars
    if n.isReachable then
      (.response (n.responses.head?.getD .nothing),
        { n with responses := n.responses.tail, seen := ⟨r.method, url⟩ :: n.seen })
    else (.unanswered (.unreachable url), n)

/-- A computation against a network. -/
def run {α : Type} (n : Network) (call : Call α) : α × Network := call.converse answer n

end Network

end Http

end TagCatalog
