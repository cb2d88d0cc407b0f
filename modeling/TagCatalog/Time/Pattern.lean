import TagCatalog.Text.Blank
import TagCatalog.Text.Split
import TagCatalog.Time.Calendar

/-!
# Patterns of Dates and Times

A pattern is a sequence of fields and of what stands between them. Reading
against a pattern is lenient about blanks and leading zeros: blanks in front
of a number are skipped, and a number takes as many digits as there are, up to
its width. A year with a sign takes any number of digits.

This is how version 0.4 of `chrono` reads a text against `%Y`, `%m`, `%d`, `%H`,
`%M`, `%S` and `%.f`. What follows a pattern has to name a day of its calendar.

## Main definitions

* `Pattern`: A sequence of fields and separators.
* `Pattern.date`, `Pattern.moments`: The patterns that values may follow.
* `Pattern.accepts`: Whether a text follows a pattern and names a date.
-/

namespace TagCatalog

/-- A part of a date and time. -/
structure Moment where
  year : Int := 0
  month : Nat := 0
  day : Nat := 0
  hour : Nat := 0
  minute : Nat := 0
  second : Nat := 0

/-- Whether the parts name a date and a time of day. -/
def Moment.isValid (m : Moment) : Bool :=
  Calendar.isDate m.year m.month m.day && Calendar.isTime m.hour m.minute m.second

/-- What may stand at a place of a pattern. -/
inductive PatternItem where
  | year
  | month
  | day
  | hour
  | minute
  | second
  /-- A point and digits of a second, or nothing. -/
  | fraction
  /-- Any number of blanks. -/
  | blanks
  | literal (c : Char)
  deriving DecidableEq, Repr

/-- A sequence of fields and separators. -/
abbrev Pattern := List PatternItem

namespace Pattern

/-- A date. -/
def date : Pattern := [.year, .literal '-', .month, .literal '-', .day]

/-- A time of day in hours, minutes and seconds. -/
def timeOfDay : Pattern := [.hour, .literal ':', .minute, .literal ':', .second]

/-- The patterns of a date with a time of day. -/
def moments : List Pattern :=
  [date ++ [.blanks, .hour, .literal ':', .minute],
    date ++ .blanks :: timeOfDay,
    date ++ .blanks :: timeOfDay ++ [.fraction],
    date ++ .literal 'T' :: timeOfDay ++ [.fraction]]

/-- Read a number of at least one digit and at most `width`. -/
def number? (width : Nat) (cs : List Char) : Option (Nat × List Char) :=
  let digits := (cs.take width).takeWhile Char.isDigit
  if digits.isEmpty then none
  else some (Nat.ofDigitChars 10 digits 0, cs.drop digits.length)

/-- Read a year: up to four digits, or any number of them behind a sign. -/
def year? : List Char → Option (Int × List Char)
  | '-' :: r => (number? r.length r).map fun (n, r) => (-(n : Int), r)
  | '+' :: r => (number? r.length r).map fun (n, r) => ((n : Int), r)
  | cs => (number? 4 cs).map fun (n, r) => ((n : Int), r)

/-- Read the digits of a fraction behind its point. -/
def fraction? : List Char → Option (List Char)
  | '.' :: r =>
    if (r.takeWhile Char.isDigit).isEmpty then none else some (r.dropWhile Char.isDigit)
  | cs => some cs

/-- Read what a place of a pattern asks for. -/
def step? (item : PatternItem) (m : Moment) (cs : List Char) : Option (Moment × List Char) :=
  let field := number? 2 (Text.trimStart cs)
  match item with
  | .year => (year? (Text.trimStart cs)).map fun (n, r) => ({ m with year := n }, r)
  | .month => field.map fun (n, r) => ({ m with month := n }, r)
  | .day => field.map fun (n, r) => ({ m with day := n }, r)
  | .hour => field.map fun (n, r) => ({ m with hour := n }, r)
  | .minute => field.map fun (n, r) => ({ m with minute := n }, r)
  | .second => field.map fun (n, r) => ({ m with second := n }, r)
  | .fraction => (fraction? cs).map fun r => (m, r)
  | .blanks => some (m, Text.trimStart cs)
  | .literal c => (Text.stripStart? [c] cs).map fun r => (m, r)

/-- Read a text against a pattern, up to the end of both. -/
def read? : Pattern → Moment → List Char → Option Moment
  | [], m, [] => some m
  | [], _, _ :: _ => none
  | item :: items, m, cs =>
    match step? item m cs with
    | some (m, r) => read? items m r
    | none => none

/-- Whether a text follows a pattern and names a date. -/
def accepts (pattern : Pattern) (cs : List Char) : Bool :=
  (read? pattern {} cs).any Moment.isValid

end Pattern

end TagCatalog
