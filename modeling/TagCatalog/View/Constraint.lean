import TagCatalog.Number.Numeral
import TagCatalog.Query.Basic
import TagCatalog.Schema.Basic
import TagCatalog.Time.Stamp

/-!
# Constraints

Whether a condition makes sense for a tag. The number of values is always
checked. The rest needs the declared type of the tag: the operator has to have
a meaning for it and, unless the operator takes a pattern, every value has to
be one of the type.

## Main definitions

* `Misfit`: Why a condition makes no sense.
* `ValueType.admits`: Whether a text is a value of a type.
* `Schema.misfit?`: What is wrong with a condition on a tag.
-/

namespace TagCatalog

/-- Why a condition makes no sense. -/
inductive Misfit where
  | count (op : Operator) (count : Nat)
  | operator (op : Operator) (type : ValueType)
  | value (value : String) (type : ValueType)
  deriving DecidableEq, Repr

/-- The wording of a reason. -/
def Misfit.message : Misfit → String
  | count op n => op.label ++ " does not take " ++ String.ofList (Numeral.ofNat n) ++ " value(s)"
  | operator op type => op.label ++ " is not supported for " ++ type.title ++ " tags"
  | value v type => "'" ++ v ++ "' is not a valid " ++ type.title ++ " value"

/-- Whether the values of an operator are values of the tag's type; patterns
    are free text. -/
def Operator.isTyped : Operator → Bool
  | eq | neq | less | lessEq | greater | greaterEq | between => true
  | _ => false

/-- Whether a text, but for the blanks around it, is a value of a type. -/
def ValueType.admits (type : ValueType) (value : String) : Bool :=
  let cs := Text.trim value.toList
  match type with
  | integer => Numeral.isInteger cs
  | real => Numeral.isReal cs
  | date => Pattern.date.accepts cs
  | timestamp => Stamp.isMoment cs
  | boolean => cs = "true".toList || cs = "false".toList
  | empty | text | other _ => true

/-- What is wrong with a condition on a tag. Of a tag that is not declared
    only the number of values is checked. -/
def Schema.misfit? (schema : Schema) (tag : String) (p : Predicate) : Option Misfit :=
  if !p.hasValidArity then some (.count p.op p.values.length)
  else
    match schema.typeOf? tag with
    | none => none
    | some type =>
      if !p.op.appliesTo type then some (.operator p.op type)
      else if p.op.isTyped then
        (p.values.find? fun v => !type.admits v).map fun v => .value v type
      else none

end TagCatalog
