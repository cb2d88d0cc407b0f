import TagCatalog.Json.Document

/-!
# Records and Choices in Documents

How values of known shape are read from a document.

A record is an object, of which unknown members are skipped and known ones may
not stand there twice, or a list of the values in the order of the fields. A
choice without content is its name, or an object with that single name and
`null`.

## Main definitions

* `Document.record?`: The values of the fields of a record.
* `Document.text?`, `Document.bool?`, `Document.word?`: Single values.
* `Document.list?`, `Document.optional?`: Several values, or perhaps one.
* `Document.choice?`: The name of a choice.
-/

namespace TagCatalog

namespace Json

namespace Document

/-- Whether a field of a record can be left out. -/
inductive Presence where
  | required
  /-- Only where fields have names. -/
  | nullable
  | defaulted
  deriving DecidableEq, Repr

/-- The names of members, all of which have to be well formed. -/
def names? (members : List (Option String × Document)) : Option (List String) :=
  members.mapM Prod.fst

/-- The value of a field among named members, where nothing may be missing
    that is required, and nothing may stand there twice. -/
def namedField? (members : List (Option String × Document)) (name : String) (p : Presence) :
    Option (Option Document) :=
  match members.filter fun m => m.1 = some name with
  | [] => if p = .required then none else some none
  | [m] => some (some m.2)
  | _ => none

/-- The values of fields in the order of a list, of which only the last ones
    can be missing, if they have defaults. -/
def listedFields? : List (String × Presence) → List Document → Option (List (Option Document))
  | [], [] => some []
  | [], _ :: _ => none
  | (_, p) :: fields, [] =>
    if p = .defaulted then (listedFields? fields []).map (none :: ·) else none
  | _ :: fields, d :: r => (listedFields? fields r).map (some d :: ·)

/-- The values of the fields of a record, in the order of the fields. -/
def record? (fields : List (String × Presence)) : Document → Option (List (Option Document))
  | .object members =>
    if (names? members).isSome then fields.mapM fun (name, p) => namedField? members name p
    else none
  | .array items => listedFields? fields items
  | _ => none

/-- A text. -/
def text? : Document → Option String
  | .text s => s
  | _ => none

/-- A truth value. -/
def bool? : Document → Option Bool
  | .bool b => some b
  | _ => none

/-- A word. -/
def word? : Document → Option UInt64
  | .number n => n.word?
  | _ => none

/-- The items of a list, each read in the same way. -/
def list? {α : Type} (item : Document → Option α) : Document → Option (List α)
  | .array items => items.mapM item
  | _ => none

/-- The members of an object, each read in the same way. -/
def members? {α : Type} (member : Document → Option α) :
    Document → Option (List (String × α))
  | .object members =>
    members.mapM fun (name, d) => do
      let name ← name
      let a ← member d
      some (name, a)
  | _ => none

/-- Nothing for `null`, and else a value. -/
def optional? {α : Type} (value : Document → Option α) : Document → Option (Option α)
  | .null => some none
  | d => (value d).map some

/-- A field that may be left out. -/
def field? {α : Type} (value : Document → Option α) (missing : α) : Option Document → Option α
  | none => some missing
  | some d => value d

/-- The name of a choice without content. -/
def choice? : Document → Option String
  | .text s => s
  | .object [(name, .null)] => name
  | _ => none

end Document

end Json

end TagCatalog
