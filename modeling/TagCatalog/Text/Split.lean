/-!
# Splitting and Joining

A text cut at a separator character: at every one, at the first, or after the
last.

## Main definitions

* `splitOn`: The pieces between separators; a text without one is one piece.
* `cut?`: The text before and after the first separator.
* `throughLast`: The text up to and with the last separator, and the rest.
* `joinWith`: Pieces with a separator between each two.
-/

namespace TagCatalog

namespace Text

/-- The pieces between separators. -/
def splitOn (sep : Char) : List Char → List (List Char)
  | [] => [[]]
  | c :: r =>
    if c = sep then [] :: splitOn sep r
    else
      match splitOn sep r with
      | [] => [[c]]
      | p :: ps => (c :: p) :: ps

/-- The text before and after the first separator. -/
def cut? (sep : Char) : List Char → Option (List Char × List Char)
  | [] => none
  | c :: r =>
    if c = sep then some ([], r)
    else (cut? sep r).map fun (a, b) => (c :: a, b)

/-- The text up to and with the last separator, and the rest. -/
def throughLast (sep : Char) : List Char → List Char × List Char
  | [] => ([], [])
  | c :: r =>
    let (a, b) := throughLast sep r
    if a.isEmpty && c ≠ sep then ([], c :: b) else (c :: a, b)

/-- Pieces with a separator between each two. -/
def joinWith (sep : Char) (pieces : List (List Char)) : List Char :=
  [sep].intercalate pieces

/-- The rest of a text behind a given beginning. -/
def stripStart? : List Char → List Char → Option (List Char)
  | [], r => some r
  | _ :: _, [] => none
  | p :: ps, c :: r => if p = c then stripStart? ps r else none

/-- The beginning of a text before a given ending. -/
def stripEnd? (ending cs : List Char) : Option (List Char) :=
  (stripStart? ending.reverse cs.reverse).map List.reverse

end Text

end TagCatalog
