import TagCatalog.Catalog.Client
import TagCatalog.Query.Document
import TagCatalog.Yaml.Record

/-!
# Settings

Where the catalog is and how to talk to it, with defaults for all that a
settings text leaves out.

## Main definitions

* `Settings`: Where the catalog is and how to talk to it.
* `Settings.parse?`: The settings that a text holds.
* `Settings.client`: The client for these settings.
-/

namespace TagCatalog

open Yaml (Value)

/-- Where the catalog is and how to talk to it. -/
structure Settings where
  url : String := "https://localhost/tagfiler"
  versions : Versions := .latest
  /-- The view whose columns are shown when nothing else says so. -/
  defaultView : String := "default"
  pageSize : PageSize := ⟨25, by decide⟩
  /-- How many values can be offered to pick from. -/
  pickLimit : UInt64 := PickList.defaultLimit
  timeoutSeconds : UInt64 := 300
  retries : UInt32 := 10
  /-- The longest wait before a retry, in milliseconds. -/
  longestDelay : UInt64 := 60000
  deriving DecidableEq, Repr

namespace Settings

/-- The root of the catalog's addresses. -/
def home (s : Settings) : String := withoutSlashes s.url

/-- What the addresses of subjects begin with. -/
def subjectBase (s : Settings) : String := s.home ++ "/subject/"

/-- How long to wait for a response, in milliseconds. -/
def timeout (s : Settings) : Nat := 1000 * s.timeoutSeconds.toNat

/-- The client for these settings. -/
def client (s : Settings) : Client := .ofUrl s.url s.retries.toNat

/-- A number of 64 bits. -/
def word? (value : Value) : Option UInt64 :=
  value.natural?.bind fun n => if n < UInt64.size then some (UInt64.ofNat n) else none

/-- A number of 32 bits. -/
def shortWord? (value : Value) : Option UInt32 :=
  value.natural?.bind fun n => if n < UInt32.size then some (UInt32.ofNat n) else none

/-- A choice of versions. -/
def versions? (value : Value) : Option Versions := value.choice?.bind Versions.ofKey?

/-- A page size. -/
def pageSize? (value : Value) : Option PageSize := (word? value).bind PageSize.ofWord?

/-- Settings with those of the section about the catalog. -/
def withCatalog? (s : Settings) (value : Value) : Option Settings := do
  let fields ← value.section? ["url", "versions", "default_view"]
  let url ← Value.field? "url" Value.text? s.url fields
  let versions ← Value.field? "versions" versions? s.versions fields
  let defaultView ← Value.field? "default_view" Value.text? s.defaultView fields
  some { s with url, versions, defaultView }

/-- Settings with those of the section about what is shown. -/
def withPreview? (s : Settings) (value : Value) : Option Settings := do
  let fields ← value.section? ["page_size", "select_limit"]
  let pageSize ← Value.field? "page_size" pageSize? s.pageSize fields
  let pickLimit ← Value.field? "select_limit" word? s.pickLimit fields
  some { s with pageSize, pickLimit }

/-- Settings with those of the section about requests. -/
def withRequests? (s : Settings) (value : Value) : Option Settings := do
  let fields ← value.section? ["timeout_seconds", "max_retries", "max_delay_ms"]
  let timeoutSeconds ← Value.field? "timeout_seconds" word? s.timeoutSeconds fields
  let retries ← Value.field? "max_retries" shortWord? s.retries fields
  let longestDelay ← Value.field? "max_delay_ms" word? s.longestDelay fields
  some { s with timeoutSeconds, retries, longestDelay }

/-- The settings that a value holds. -/
def ofValue? (value : Value) : Option Settings := do
  let sections ← value.section? ["catalog", "preview", "http"]
  let s : Settings := {}
  let s ← Value.field? "catalog" s.withCatalog? s sections
  let s ← Value.field? "preview" s.withPreview? s sections
  Value.field? "http" s.withRequests? s sections

/-- The settings that a text holds. -/
def parse? (text : List Char) : Option Settings := (Value.parse? text).bind ofValue?

end Settings

end TagCatalog
