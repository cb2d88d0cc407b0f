import Mathlib.Data.List.Forall2
import TagCatalog.Proofs.Address.Clause
import TagCatalog.Proofs.Address.Grammar

/-!
# The Meaning of a Clause

What the conditions in an address stand for, for every text.

The reader is a cascade of cuts and fallbacks. What it does can be said without
them. An address has one clause, which holds items between semicolons. Each item
stands for one condition, and the filter is these conditions, grouped by tag, in
their order.

`Reading.Means` says which condition an item stands for, in one clause for each case.
Names and values are decoded, and points in time lose the suffix of the zone. One
case stands out: a single value under the mark of equality is an interval if the tag
allows one and the value has two bounds. A text that has none of the forms is a name
as a whole.

The cases are told apart by the text, so every item has exactly one meaning. This is
`means_iff`, and `filter_meaning` puts the address together from it.

## Main definitions

* `Interval.HasBounds`: A value with two bounds.
* `Reading.IsRange`: An equality that is read as an interval.
* `Reading.Means`: The condition that an item stands for.

## Theorems

* `AddressParts.clause_ofAddress`: The clause of an address.
* `predicate_of_range`, `predicate_of_not_range`: When values are an interval.
* `means_iff`: The reader finds the meaning of each item.
* `filter_meaning`: What the conditions in an address stand for.
* `filter_meaning_interval`: An equality that is not read as one.
-/

namespace TagCatalog

open Text OrderedMap

/-- A value with two bounds in parentheses. Where the bounds have commas themselves,
    they are told apart at the last comma that has something behind it. -/
def Interval.HasBounds (value low high : List Char) : Prop :=
  value = '(' :: low ++ ',' :: high ++ [')'] ∧ low ≠ [] ∧ high ≠ [] ∧
    '\n' ∉ low ∧ '\n' ∉ high ∧ ',' ∉ high.dropLast

/-- The clause of an address: what precedes the first question mark, of that what
    precedes the first parenthesis, and of that what follows the last slash. -/
theorem AddressParts.clause_ofAddress (address : List Char) :
    (ofAddress address).clause =
      ((address.takeWhile (· ≠ '?')).takeWhile (· ≠ '(')).rtakeWhile (· ≠ '/') := by
  rw [← cut?_getD_fst '?' address, ← throughLast_snd]
  rfl

namespace Reading

section Items

variable (r : Reading) {tag : String} {op : Operator} {values : List (List Char)}

/-- An equality that is read as an interval. -/
def IsRange (tag : String) (op : Operator) (values : List (List Char)) : Prop :=
  r.schema.allowsRange tag = true ∧ op = .eq ∧
    ∃ value low high, values = [value] ∧ Interval.HasBounds (unescape value).toList low high

/-- The condition that an item stands for. -/
inductive Means : List Char → String × Predicate → Prop
  | present (name : List Char) (h : (ItemForm.present name).WellFormed) :
    Means (ItemForm.present name).text (unescape name, .tagged)
  | absent (name : List Char) (h : (ItemForm.absent name).WellFormed) :
    Means (ItemForm.absent name).text (unescape name, ⟨.absent, []⟩)
  | valued (name : List Char) (op : Operator) (values : List (List Char))
    (h : (ItemForm.valued name op values).WellFormed)
    (hplain : ¬ r.IsRange (unescape name) op values) :
    Means (ItemForm.valued name op values).text
      (unescape name, ⟨op, values.map fun v => r.strip (unescape name) (unescape v).toList⟩)
  | range (name value low high : List Char)
    (h : (ItemForm.valued name .eq [value]).WellFormed)
    (hallow : r.schema.allowsRange (unescape name) = true)
    (hbounds : Interval.HasBounds (unescape value).toList low high) :
    Means (ItemForm.valued name .eq [value]).text
      (unescape name, .between (r.strip (unescape name) low) (r.strip (unescape name) high))
  /-- A text without any of the forms is a name. -/
  | other (item : List Char) (h : ∀ form : ItemForm, form.WellFormed → form.text ≠ item) :
    Means item (unescape item, .tagged)

theorem predicate_of_range {value low high : List Char}
    (hallow : r.schema.allowsRange tag = true)
    (hbounds : Interval.HasBounds (unescape value).toList low high) :
    r.predicate tag .eq [unescape value] = .between (r.strip tag low) (r.strip tag high) := by
  have hread := (Interval.read?_eq_some_iff _ low high).mpr hbounds
  simp only [predicate, if_pos hallow, hread]

theorem predicate_of_not_range (h : ¬ r.IsRange tag op values) :
    r.predicate tag op (values.map unescape) =
      ⟨op, values.map fun v => r.strip tag (unescape v).toList⟩ := by
  have hplain : (values.map unescape).map (fun v => r.strip tag v.toList) =
      values.map fun v => r.strip tag (unescape v).toList := by
    rw [List.map_map]
    rfl
  unfold predicate
  split
  · next value hvalue =>
    rw [← hplain, hvalue]
    split
    · next hallow =>
      split
      · -- The value would have the bounds that were read.
        next low high hread =>
        rcases List.map_eq_singleton_iff.mp hvalue with ⟨v, hv, rfl⟩
        exact absurd ⟨hallow, rfl, v, low, high, hv,
          (Interval.read?_eq_some_iff _ low high).mp hread⟩ h
      · rfl
    · rfl
  · rw [hplain]

/-- The reader finds the meaning of an item. -/
theorem means_condition (item : List Char) : r.Means item (r.condition item) := by
  unfold condition
  cases hparts : conditionParts? item with
  | none =>
    refine Means.other item fun form hform htext => ?_
    rw [← htext, ItemForm.conditionParts?_text hform] at hparts
    exact Option.some_ne_none _ hparts
  | some parts =>
    rcases (ItemForm.conditionParts?_eq_some_iff item parts).mp hparts with ⟨form, hform, rfl, rfl⟩
    cases form with
    | present name => exact Means.present name hform
    | absent name => exact Means.absent name hform
    | valued name op values =>
      show r.Means _ (unescape name, r.predicate (unescape name) op (values.map unescape))
      by_cases hrange : r.IsRange (unescape name) op values
      · rcases hrange with ⟨hallow, rfl, value, low, high, rfl, hbounds⟩
        rw [List.map_singleton, r.predicate_of_range hallow hbounds]
        exact Means.range name value low high hform hallow hbounds
      · rw [r.predicate_of_not_range hrange]
        exact Means.valued name op values hform hrange

/-- An item stands for one condition, the one that the reader finds. -/
theorem means_iff (item : List Char) (c : String × Predicate) :
    r.Means item c ↔ c = r.condition item := by
  constructor
  · intro h
    unfold condition
    cases h with
    | present name h => rw [ItemForm.conditionParts?_text h]; rfl
    | absent name h => rw [ItemForm.conditionParts?_text h]; rfl
    | valued name op values h hplain =>
      rw [ItemForm.conditionParts?_text h]
      simp only [ItemForm.parts, r.predicate_of_not_range hplain]
    | range name value low high h hallow hbounds =>
      rw [ItemForm.conditionParts?_text h]
      simp only [ItemForm.parts, List.map_singleton, r.predicate_of_range hallow hbounds]
    | other item h =>
      -- If the reader took it apart, it would have a form.
      cases hparts : conditionParts? item with
      | none => rfl
      | some parts =>
        rcases (ItemForm.conditionParts?_eq_some_iff _ parts).mp hparts with ⟨form, hform, htext, _⟩
        exact absurd htext (h form hform)
  · rintro rfl
    exact r.means_condition item

end Items

/-- What the conditions in an address stand for. The items of the clause have one
    meaning each, and the filter is these meanings grouped by tag: tags stand in the
    order in which they first occur, and the conditions of a tag in their order. An
    item has no two forms, whichever mark is looked for first. -/
theorem filter_meaning (r : Reading) (address : List Char) :
    let clause := ((address.takeWhile (· ≠ '?')).takeWhile (· ≠ '(')).rtakeWhile (· ≠ '/')
    let items := (clause.splitOn ';').filter (· ≠ [])
    let filter := (r.query address).filter
    (∃ conditions, List.Forall₂ r.Means items conditions ∧
      (filter.entries = (distinct (conditions.map Prod.fst)).map fun tag =>
        (tag, (conditions.filter fun c => c.1 = tag).map Prod.snd)) ∧
      filter.ungrouped.Perm conditions) ∧
    (∀ item, ∃! c, r.Means item c) ∧
    (∀ f g : ItemForm, f.WellFormed → g.WellFormed → f.text = g.text → f = g) ∧
    ∀ ops : List Operator, ops.Perm markedOperators → ∀ cs,
      (ops.findSome? fun op => (stripStart? op.mark cs).map fun rest => (op, rest)) =
        operatorAtStart? cs := by
  intro clause items filter
  have hitems : filledPieces ';' (AddressParts.ofAddress address).clause = items := by
    rw [AddressParts.clause_ofAddress, filledPieces, splitOn_eq]
    refine List.filter_congr fun piece _ => ?_
    rw [Bool.eq_iff_iff, Bool.not_eq_true', List.isEmpty_eq_false_iff, decide_eq_true_eq]
  have hfilter : filter = gather (items.map r.condition) := by
    show r.filter (AddressParts.ofAddress address).clause = _
    rw [filter_eq_gather, hitems]
  refine ⟨⟨items.map r.condition, ?_, ?_, ?_⟩, fun item => ?_,
    fun f g => ItemForm.text_injective, operatorAtStart?_of_perm⟩
  · rw [List.forall₂_map_right_iff, List.forall₂_same]
    exact fun item _ => r.means_condition item
  · rw [hfilter, entries_gather]
  · rw [hfilter]
    exact ungrouped_gather _
  · exact ⟨r.condition item, r.means_condition item, fun c => (r.means_iff item c).mp⟩

/-- A name with the mark of equality and one value is not always an equality with
    that value. -/
theorem filter_meaning_interval :
    let r : Reading := ⟨.ofList [("n", { type := .integer })], .utc⟩
    let value := "%281%2C2%29".toList
    (ItemForm.valued "n".toList .eq [value]).WellFormed ∧
      (r.query "h/n=%281%2C2%29(n)".toList).filter.entries = [("n", [.between "1" "2"])] ∧
      (r.query "h/n=%281%2C2%29(n)".toList).filter.entries ≠
        [("n", [⟨.eq, [r.strip "n" (unescape value).toList]⟩])] := by
  intro r value
  have hread : (r.query "h/n=%281%2C2%29(n)".toList).filter.entries =
      [("n", [.between "1" "2"])] := by
    decide +kernel
  refine ⟨⟨by decide, List.all_eq_true.mp rfl, ?_⟩, hread, ?_⟩
  · rintro _ _ _ ⟨⟩
    exact ⟨rfl, List.cons_ne_nil _ _, by simp [isPlain, value]⟩
  · rw [hread]
    decide +kernel

end Reading

end TagCatalog
