/-!
# The Calendar

The Gregorian calendar, continued to years before its introduction, with a
year zero. Years from -262143 to 262142 are supported.

## Main definitions

* `Calendar.isLeap`: Whether a year has a leap day.
* `Calendar.isDate`: Whether a year, a month and a day name a date.
-/

namespace TagCatalog

namespace Calendar

/-- Whether a year has a leap day. -/
def isLeap (year : Int) : Bool :=
  (year % 4 = 0 && year % 100 ≠ 0) || year % 400 = 0

/-- The number of days of a month, which is zero when there is no such month. -/
def daysIn (year : Int) (month : Nat) : Nat :=
  match month with
  | 1 | 3 | 5 | 7 | 8 | 10 | 12 => 31
  | 4 | 6 | 9 | 11 => 30
  | 2 => if isLeap year then 29 else 28
  | _ => 0

/-- Whether a year, a month and a day name a date. -/
def isDate (year : Int) (month day : Nat) : Bool :=
  -262143 ≤ year && year ≤ 262142 && 1 ≤ day && day ≤ daysIn year month

/-- Whether an hour, a minute and a second name a time of day, where a minute
    may have a leap second. -/
def isTime (hour minute second : Nat) : Bool :=
  hour ≤ 23 && minute ≤ 59 && second ≤ 60

end Calendar

end TagCatalog
