/-!
# Distinct Elements

The elements of a list in the order in which they first occur, where elements
count as equal when they have the same key.

## Main definitions

* `distinctBy`: The first element of each key.
* `distinct`: Each element once.
-/

namespace TagCatalog

/-- The first element of each key. -/
def distinctBy {α κ : Type} [DecidableEq κ] (key : α → κ) : List α → List α
  | [] => []
  | a :: r => a :: (distinctBy key r).filter fun b => key b ≠ key a

/-- Each element once, where it first occurs. -/
def distinct {α : Type} [DecidableEq α] (l : List α) : List α := distinctBy id l

end TagCatalog
