import TagCatalog.Number.Numeral

/-!
# Time Zones

A time zone is a distance from universal time in seconds, positive to the
east, and less than a day. Where it is appended to a point in time it is
written in hours and minutes; seconds beyond a full minute are left out.

## Main definitions

* `Zone`: A distance from universal time.
* `Zone.suffix`: The text appended to a point in time.
-/

namespace TagCatalog

/-- A distance from universal time in seconds, positive to the east. -/
structure Zone where
  seconds : Int
  within_day : seconds.natAbs < 86400
  deriving DecidableEq

namespace Zone

/-- Universal time itself. -/
def utc : Zone := ⟨0, by decide⟩

instance : Inhabited Zone := ⟨utc⟩

/-- The zone at a distance, if it is less than a day. -/
def ofSeconds? (seconds : Int) : Option Zone :=
  if h : seconds.natAbs < 86400 then some ⟨seconds, h⟩ else none

/-- A number below a hundred in two digits. -/
def twoDigits (n : Nat) : List Char :=
  if n < 10 then '0' :: Numeral.ofNat n else Numeral.ofNat n

/-- The text appended to a point in time. -/
def suffix (zone : Zone) : String :=
  let minutes := zone.seconds.natAbs / 60
  String.ofList <|
    (if zone.seconds < 0 then '-' else '+') ::
      (twoDigits (minutes / 60) ++ ':' :: twoDigits (minutes % 60))

end Zone

end TagCatalog
