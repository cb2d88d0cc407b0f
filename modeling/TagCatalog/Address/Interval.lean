import TagCatalog.Text.Split

/-!
# Intervals

An interval is written as `(low,high)`. The text between the parentheses is
cut at its last comma that has something on both sides, and a line feed makes
the whole text no interval.

These are the matches of `^\((.+),(.+)\)$` in the language of `regex`: the first
group takes as much as it can, a point stands for any character but the line feed,
and the dollar sign for the end of the text and not for the end of a line.

## Main definitions

* `Interval.read?`: The two bounds of an interval.
-/

namespace TagCatalog

namespace Interval

/-- The text before and after the last comma that has something behind it. -/
def lastComma? : List Char → Option (List Char × List Char)
  | [] => none
  | c :: r =>
    match lastComma? r with
    | some (a, b) => some (c :: a, b)
    | none => if c = ',' ∧ r ≠ [] then some ([], r) else none

/-- The two bounds of an interval. -/
def read? (cs : List Char) : Option (List Char × List Char) :=
  match Text.stripStart? ['('] cs with
  | none => none
  | some inner =>
    match Text.stripEnd? [')'] inner with
    | some (c :: r) =>
      if '\n' ∈ c :: r then none
      else (lastComma? r).map fun (a, b) => (c :: a, b)
    | _ => none

end Interval

end TagCatalog
