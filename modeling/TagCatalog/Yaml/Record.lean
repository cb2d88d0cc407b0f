import TagCatalog.Number.Numeral
import TagCatalog.Text.Percent
import TagCatalog.Yaml.Document

/-!
# Sections and Values of Settings

How values of known shape are read from a node. A section that is left out has
no entries; entries that nobody knows are skipped. Every scalar is a text, but
only one without quotes is a number. An alias is read as the node for which it
stands, so a node is read together with the text that it is in.

## Main definitions

* `Value`: A node in the text that holds it.
* `Value.section?`: The entries of a section.
* `Value.field?`: The value of an entry of a section, if it is there.
* `Value.text?`, `Value.natural?`, `Value.choice?`: Single values.
-/

namespace TagCatalog

namespace Yaml

/-- A node in the text that holds it. -/
structure Value where
  root : Node
  node : Node

namespace Value

/-- The value that a text holds. -/
def parse? (text : List Char) : Option Value := (Node.parse? text).map fun root => ⟨root, root⟩

/-- The node itself, or the one for which it stands. -/
def content? (v : Value) : Option Node :=
  match v.node with
  | .aliasOf number => v.root.target? number
  | node => some node

/-- A text. -/
def text? (v : Value) : Option String :=
  match v.content? with
  | some (.scalar _ _ text) => some text
  | _ => none

/-- An entry with its name, if its key is one. -/
def named? (root : Node) (pair : Node × Node) : Option (String × Value) :=
  (text? ⟨root, pair.1⟩).map fun name => (name, ⟨root, pair.2⟩)

/-- The entries of a section, where a known name may not stand twice. -/
def section? (known : List String) (v : Value) : Option (List (String × Value)) :=
  match v.content? with
  | some (.scalar _ style text) => if style = .plain && text.isEmpty then some [] else none
  | some (.mapping _ entries) =>
    (entries.mapM (named? v.root)).bind fun named =>
      if known.all fun name => (named.filter fun e => e.1 = name).length ≤ 1 then some named
      else none
  | _ => none

/-- The value of an entry of a section, or `missing` if it is not there. -/
def field? {α : Type} (name : String) (read? : Value → Option α) (missing : α)
    (entries : List (String × Value)) : Option α :=
  match entries.lookup name with
  | some value => read? value
  | none => some missing

/-- The value of digits to a base; at least one is needed. -/
def digits? (base : Nat) (cs : List Char) : Option Nat :=
  if cs.isEmpty then none
  else
    cs.foldlM (fun n c =>
      (Percent.hexValue? c).bind fun d => if d < base then some (base * n + d) else none) 0

/-- The base that the second character of a number stands for. -/
def base? (c : Char) : Option Nat :=
  match c with
  | 'x' => some 16
  | 'o' => some 8
  | 'b' => some 2
  | _ => none

/-- The number that a word is: digits to the base ten, which do not begin with
    a needless zero, or digits behind the mark of another base. -/
def ofDigits? (cs : List Char) : Option Nat :=
  match cs with
  | ['0'] => some 0
  | '0' :: c :: r => (base? c).bind fun base => digits? base r
  | cs => digits? 10 cs

/-- The tag of a number that is written as a whole line. -/
def numberTag : Tag := .ofString "tag:yaml.org,2002:int"

/-- A number without a sign, or with a plus sign. -/
def natural? (v : Value) : Option Nat :=
  match v.content? with
  | some (.scalar p style text) =>
    if style = .plain ∨ (style = .literal ∧ p.tag = some numberTag) then
      ofDigits? (Numeral.dropPlus text.toList)
    else none
  | _ => none

/-- Whether a scalar stands for nothing. -/
def isNull (style : Style) (text : String) : Bool :=
  style = .plain && ["", "~", "null", "Null", "NULL"].contains text

/-- The name that a tag of a text's own is, if its bytes are a text. -/
def ownName? (tag : Tag) : Option String :=
  match tag with
  | mark :: bytes =>
    let cs := Utf8.decode bytes
    if mark = UInt8.ofNat '!'.toNat ∧ Utf8.bytes cs = bytes then some (String.ofList cs) else none
  | [] => none

/-- The name of a choice without content: a text, or an own tag with nothing. -/
def choice? (v : Value) : Option String :=
  match v.content? with
  | some (.scalar p style text) =>
    match p.tag.bind ownName? with
    | some name => if isNull style text then some name else none
    | none => some text
  | _ => none

end Value

end Yaml

end TagCatalog
