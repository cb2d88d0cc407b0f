import TagCatalog.Time.Pattern

/-!
# Points in Time

A point in time may be written in several ways: as a date alone, as a date
with a time of day, and as a timestamp that names its own distance from
universal time. The last form leaves nothing open: every number has its full
width, and the distance is a `Z` or a sign with hours and minutes.

The last form is RFC 3339 as version 0.4 of `chrono` reads it. There a blank may
stand for the `T`, the letters may be small, a minus sign may be the one of
mathematics, and a leap second is a second.

## Main definitions

* `Stamp.isComplete`: Whether a text is a timestamp with its own distance.
* `Stamp.isMoment`: Whether a text is a point in time.
-/

namespace TagCatalog

namespace Stamp

/-- Read a number of exactly `width` digits. -/
def fixed? (width : Nat) (cs : List Char) : Option (Nat × List Char) :=
  let digits := cs.take width
  if digits.length = width ∧ digits.all Char.isDigit then
    some (Nat.ofDigitChars 10 digits 0, cs.drop width)
  else none

/-- Read one of some characters. -/
def oneOf? (accepted : List Char) : List Char → Option (List Char)
  | [] => none
  | c :: r => if accepted.contains c then some r else none

/-- Whether a text is a distance from universal time of less than a day. -/
def isDistance : List Char → Bool
  | [] => false
  | c :: r =>
    if c = 'Z' ∨ c = 'z' then r.isEmpty
    else if c = '+' ∨ c = '-' ∨ c = '\u2212' then
      match do
        let (hours, r) ← fixed? 2 r
        let r ← oneOf? [':'] r
        let (minutes, r) ← fixed? 2 r
        some (hours, minutes, r)
      with
      | some (hours, minutes, r) => hours ≤ 23 && minutes ≤ 59 && r.isEmpty
      | none => false
    else false

/-- Read a date and a time of day in which every number has its full width. -/
def moment? (cs : List Char) : Option (Moment × List Char) := do
  let (year, r) ← fixed? 4 cs
  let r ← oneOf? ['-'] r
  let (month, r) ← fixed? 2 r
  let r ← oneOf? ['-'] r
  let (day, r) ← fixed? 2 r
  let r ← oneOf? ['T', 't', ' '] r
  let (hour, r) ← fixed? 2 r
  let r ← oneOf? [':'] r
  let (minute, r) ← fixed? 2 r
  let r ← oneOf? [':'] r
  let (second, r) ← fixed? 2 r
  let r ← Pattern.fraction? r
  some ({ year := (year : Int), month, day, hour, minute, second }, r)

/-- Whether a text is a timestamp with its own distance from universal time. -/
def isComplete (cs : List Char) : Bool :=
  match moment? cs with
  | some (m, r) => m.isValid && isDistance r
  | none => false

/-- Whether a text is a point in time. -/
def isMoment (cs : List Char) : Bool :=
  Pattern.date.accepts cs || isComplete cs || Pattern.moments.any fun p => p.accepts cs

end Stamp

end TagCatalog
