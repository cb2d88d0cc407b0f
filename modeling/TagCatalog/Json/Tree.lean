/-!
# Trees of Values

The shape that all documents share: single values, lists of values, and
values by name. What a number and a text are is left open, because a document
that has only been read may hold numbers too large for any word and texts that
are not well formed.

## Main definitions

* `Tree`: Values over some numbers and texts.
* `Tree.map`: The same tree over other numbers and texts.
* `Tree.depth`: How deep lists and objects are nested.
-/

namespace TagCatalog

namespace Json

/-- Values over the numbers `ν` and the texts `τ`. -/
inductive Tree (ν τ : Type) where
  | null
  | bool (b : Bool)
  | number (n : ν)
  | text (s : τ)
  | array (items : List (Tree ν τ))
  | object (members : List (τ × Tree ν τ))

namespace Tree

variable {ν τ ν' τ' : Type}

mutual

/-- The same tree over other numbers and texts. -/
def map (f : ν → ν') (g : τ → τ') : Tree ν τ → Tree ν' τ'
  | null => null
  | bool b => bool b
  | number n => number (f n)
  | text s => text (g s)
  | array items => array (mapItems f g items)
  | object members => object (mapMembers f g members)

/-- The same trees over other numbers and texts. -/
def mapItems (f : ν → ν') (g : τ → τ') : List (Tree ν τ) → List (Tree ν' τ')
  | [] => []
  | t :: r => t.map f g :: mapItems f g r

/-- The same members over other numbers and texts. -/
def mapMembers (f : ν → ν') (g : τ → τ') : List (τ × Tree ν τ) → List (τ' × Tree ν' τ')
  | [] => []
  | (k, t) :: r => (g k, t.map f g) :: mapMembers f g r

end

mutual

/-- How deep lists and objects are nested. -/
def depth : Tree ν τ → Nat
  | null | bool _ | number _ | text _ => 0
  | array items => depthOfItems items + 1
  | object members => depthOfMembers members + 1

/-- The depth of the deepest tree. -/
def depthOfItems : List (Tree ν τ) → Nat
  | [] => 0
  | t :: r => max t.depth (depthOfItems r)

/-- The depth of the deepest member. -/
def depthOfMembers : List (τ × Tree ν τ) → Nat
  | [] => 0
  | (_, t) :: r => max t.depth (depthOfMembers r)

end

end Tree

end Json

end TagCatalog
