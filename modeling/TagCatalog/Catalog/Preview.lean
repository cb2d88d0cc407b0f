import TagCatalog.Catalog.Refresh
import TagCatalog.Json.Printer

/-!
# Previews as Documents

## Main definitions

* `Preview.value`: The document of a preview.
-/

namespace TagCatalog

open Json

/-- The document of a preview: where the rows come from, how many there are in
    all, and the rows. -/
def Preview.value (p : Preview) : Value :=
  .object
    [("url", .text p.url), ("total", Value.ofWord p.total), ("rows", .array (p.rows.map .object))]

end TagCatalog
