import TagCatalog.Json.Printer
import TagCatalog.View.PickList

/-!
# Pick Lists as Documents

## Main definitions

* `PickList.value`: The document of a pick list.
-/

namespace TagCatalog

open Json

/-- The name of a kind of pick list. -/
def PickList.kind : PickList → String
  | empty => "empty"
  | values _ => "values"
  | tooMany _ => "too_many"

/-- The document of a pick list: its kind, and what it holds. -/
def PickList.value (p : PickList) : Value :=
  .object <| ("kind", .text p.kind) ::
    match p with
    | empty => []
    | values vs => [("data", Value.ofTexts vs)]
    | tooMany n => [("data", Value.ofWord n)]

end TagCatalog
