import TagCatalog.Text.Percent
import TagCatalog.Text.Split

/-!
# Addresses of Changes

A change of tag values is addressed by the conditions that its subjects meet
and by the values to add or remove.

## Main definitions

* `idClause`: The condition that a subject is one of some.
* `assignment`: A tag and perhaps some of its values.
* `mutationAddress`: The address of a change.
-/

namespace TagCatalog

open Text

/-- The condition that a subject has one of the given numbers. -/
def idClause (ids : List String) : List Char :=
  "id=".toList ++ joinWith ',' (ids.map escape)

/-- A tag with the values that are meant, or alone when all are. -/
def assignment (tag : String) (values : List String) : List Char :=
  if values.isEmpty then escape tag
  else escape tag ++ '=' :: joinWith ',' (values.map escape)

/-- The address of a change to the subjects that meet a clause. -/
def mutationAddress (home clause tag : String) (values : List String) : String :=
  home ++ "/tags/" ++ clause ++ String.ofList ('(' :: assignment tag values ++ [')'])

end TagCatalog
