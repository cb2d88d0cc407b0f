import TagCatalog.Data.Exchange
import TagCatalog.View.Request

/-!
# Pick Lists

The values of a tag that a person can pick from. The catalog is first asked
how many there are, and only for a number that can be offered it is asked for
the values.

## Main definitions

* `PickList`: What can be offered.
* `ValueQuestion`: What the catalog is asked.
* `View.pickList`: The values of a tag in the rows of a view.
-/

namespace TagCatalog

/-- What can be offered to pick from. -/
inductive PickList where
  | empty
  | values (values : List String)
  | tooMany (count : UInt64)
  deriving DecidableEq, Repr

/-- What the catalog is asked about the values of a tag, under an address. -/
inductive ValueQuestion where
  | count (address tag : String)
  | values (address tag : String)
  deriving DecidableEq, Repr

/-- The answers to a question, where `ε` are the ways to fail. -/
def ValueQuestion.Answer (ε : Type) : ValueQuestion → Type
  | count _ _ => Except ε UInt64
  | values _ _ => Except ε (List String)

/-- How getting a pick list can fail. -/
inductive PickError (ε : Type) where
  | view (error : ViewError)
  | source (error : ε)

/-- The greatest number of values that is offered by default. -/
def PickList.defaultLimit : UInt64 := 50

/-- The values of a tag in the rows of a view, if there are at most `limit`. -/
def View.pickList {ε : Type} (v : View) (a : Addressing) (tag : String) (limit : UInt64) :
    Exchange ValueQuestion (ValueQuestion.Answer ε) (Except (PickError ε) PickList) :=
  match v.range? a tag .count, v.range? a tag .values with
  | .error e, _ | _, .error e => .done (.error (.view e))
  | .ok counting, .ok listing =>
    .ask (.count counting tag) fun
      | .error e => .done (.error (.source e))
      | .ok count =>
        if count = 0 then .done (.ok .empty)
        else if limit < count then .done (.ok (.tooMany count))
        else
          .ask (.values listing tag) fun
            | .error e => .done (.error (.source e))
            | .ok values => .done (.ok (.values (values.mergeSort (· ≤ ·))))

end TagCatalog
