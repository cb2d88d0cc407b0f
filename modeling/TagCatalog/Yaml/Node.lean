import TagCatalog.Yaml.Scalar
import TagCatalog.Yaml.Tag

/-!
# Nodes of Settings Texts

What a text of settings holds: scalars, sequences and mappings. A scalar is a
text of which it matters how it was written, because only a plain one can be
a number. A node that is left out is a plain scalar without characters.

A node may have a number, and elsewhere an alias with that number stands for
it. An alias may be inside of the node for which it stands, so the two are not
put together; the node is looked up in the text as a whole. Where several
nodes have one number, it is that of the last one to begin.

## Main definitions

* `Properties`: What is said of a node beside what it holds.
* `Node`: What a settings text holds.
* `Node.absent`: A node that is left out.
* `Node.target?`: The node for which an alias stands.
-/

namespace TagCatalog

namespace Yaml

/-- What is said of a node beside what it holds. -/
structure Properties where
  number : Option Nat := none
  tag : Option Tag := none
  deriving DecidableEq, Repr

/-- Whether nothing is said. -/
def Properties.isEmpty (p : Properties) : Bool := p.number.isNone && p.tag.isNone

/-- What a settings text holds. -/
inductive Node where
  | aliasOf (number : Nat)
  | scalar (p : Properties) (style : Style) (text : String)
  | sequence (p : Properties) (items : List Node)
  | mapping (p : Properties) (entries : List (Node × Node))

namespace Node

/-- A node that is left out. -/
def absent : Node := .scalar {} .plain ""

mutual

/-- The nodes of a number within a node, in the order in which they begin. -/
def numbered (number : Nat) : Node → List Node
  | aliasOf _ => []
  | scalar p style text => if p.number = some number then [scalar p style text] else []
  | sequence p items =>
    let inside := numberedItems number items
    if p.number = some number then sequence p items :: inside else inside
  | mapping p entries =>
    let inside := numberedEntries number entries
    if p.number = some number then mapping p entries :: inside else inside

/-- The nodes of a number within the items of a sequence. -/
def numberedItems (number : Nat) : List Node → List Node
  | [] => []
  | item :: r => numbered number item ++ numberedItems number r

/-- The nodes of a number within the entries of a mapping. -/
def numberedEntries (number : Nat) : List (Node × Node) → List Node
  | [] => []
  | (key, value) :: r => numbered number key ++ numbered number value ++ numberedEntries number r

end

/-- The node within a text for which an alias of a number stands. -/
def target? (root : Node) (number : Nat) : Option Node := (root.numbered number).getLast?

end Node

end Yaml

end TagCatalog
