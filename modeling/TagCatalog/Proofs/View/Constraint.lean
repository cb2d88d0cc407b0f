import TagCatalog.Proofs.Address.RoundTrip
import TagCatalog.Proofs.Time.Stamp
import TagCatalog.View.Constraint

/-!
# Checked Conditions Come Back

Which conditions that were found to make sense for a tag are also read back
from an address.

Three things decide separately what is allowed: the check of values, the table
of operators by type, and the form by which an interval is told from a single
value. They agree almost everywhere. The table allows an interval on ordered
types only, which are those on which a value may be read as one. The check
refuses a comma and an empty text as a value of such a type, so the comma
between two bounds is the only one in an interval, both bounds hold something,
and no single value has the form of an interval.

They differ in the line feed. The check looks past the blanks around a value,
and between the parts of a date and time, and a line feed is a blank. The form
of an interval admits it nowhere. `keeps_iff_of_misfit?` says that this is the
only difference.

## Main definitions

* `Predicate.HasLineFeed`: An interval with a line feed in a bound.

## Theorems

* `ValueType.comma_notMem_of_admits`, `ValueType.ne_empty_of_admits`: What values
  of ordered types look like.
* `Schema.hasValidArity_of_misfit?`, `Schema.admits_of_misfit?`,
  `Schema.isOrdered_of_misfit?`: What a check has found out.
* `Schema.keeps_iff_of_misfit?`: Which checked conditions come back.
* `Addressing.checked_returns_iff`: A checked condition is written, and when it
  is read back.
* `Addressing.checked_interval_lost`: A checked interval that is not read back.
-/

namespace TagCatalog

open Text TagCatalog.Interval

/-- Values of ordered types have no comma. -/
theorem ValueType.comma_notMem_of_admits (type : ValueType) (value : String)
    (htype : type.isOrdered = true) (h : type.admits value = true) : ',' ∉ value.toList := by
  intro hc
  have htrim := comma_mem_trim value.toList hc
  cases type with
  | integer => exact Numeral.comma_notMem_of_isInteger _ h htrim
  | real => exact Numeral.comma_notMem_of_isReal _ h htrim
  | date => exact Pattern.comma_notMem_of_accepts _ (by decide) _ h htrim
  | timestamp => exact Stamp.comma_notMem_of_isMoment _ h htrim
  | empty | text | boolean | other => exact Bool.noConfusion htype

/-- Values of ordered types hold something. -/
theorem ValueType.ne_empty_of_admits (type : ValueType) (value : String)
    (htype : type.isOrdered = true) (h : type.admits value = true) : value ≠ "" := by
  rintro rfl
  cases type with
  | integer | real | date | timestamp => exact absurd h (by decide)
  | empty | text | boolean | other => exact Bool.noConfusion htype

/-- An interval with a line feed in one of its bounds. -/
def Predicate.HasLineFeed (p : Predicate) : Prop :=
  ∃ low high, p = .between low high ∧ ('\n' ∈ low.toList ∨ '\n' ∈ high.toList)

theorem Predicate.hasLineFeed_between (low high : String) :
    (between low high).HasLineFeed ↔ '\n' ∈ low.toList ∨ '\n' ∈ high.toList := by
  constructor
  · rintro ⟨l, h, heq, hmem⟩
    rcases (between_inj low high l h).mp heq with ⟨rfl, rfl⟩
    exact hmem
  · exact fun h => ⟨low, high, rfl, h⟩

/-- A text without a comma does not have the form of an interval. -/
theorem Interval.not_isInterval_of_comma_notMem (cs : List Char) (h : ',' ∉ cs) :
    ¬ IsInterval cs := by
  rintro ⟨low, high, rfl, _⟩
  exact h (by simp)

namespace Schema

/-- Whatever is declared of a tag, a condition on it that was checked has the
    right number of values. -/
theorem hasValidArity_of_misfit? (schema : Schema) (tag : String) (p : Predicate)
    (h : schema.misfit? tag p = none) : p.hasValidArity = true := by
  unfold misfit? at h
  by_contra harity
  rw [if_pos (by simp [harity])] at h
  exact Option.some_ne_none _ h

variable {schema : Schema} {tag : String} {p : Predicate} {type : ValueType}

theorem allowsRange_eq (htype : schema.typeOf? tag = some type) :
    schema.allowsRange tag = type.isOrdered := by
  rw [allowsRange, htype]
  rfl

/-- The values of a checked condition are values of the tag's type. -/
theorem admits_of_misfit? (htype : schema.typeOf? tag = some type) (h : schema.misfit? tag p = none)
    (hop : p.op.isTyped = true) : ∀ v ∈ p.values, type.admits v = true := by
  have harity := schema.hasValidArity_of_misfit? tag p h
  unfold misfit? at h
  simp only [harity, htype, hop, Bool.not_true, Bool.false_eq_true, if_false, if_true] at h
  split at h
  · exact absurd h (Option.some_ne_none _)
  · rw [Option.map_eq_none_iff, List.find?_eq_none] at h
    intro v hv
    simpa using h v hv

/-- A checked interval is on a tag of an ordered type. -/
theorem isOrdered_of_misfit? {low high : String} (htype : schema.typeOf? tag = some type)
    (h : schema.misfit? tag (.between low high) = none) : type.isOrdered = true := by
  by_contra hordered
  unfold misfit? at h
  simp only [htype] at h
  split at h
  · exact Option.some_ne_none _ h
  · rw [if_pos (by simpa [Predicate.between, Operator.appliesTo] using hordered)] at h
    exact Option.some_ne_none _ h

/-- A checked condition comes back unless it is an interval with a line feed. -/
theorem keeps_iff_of_misfit? (htype : schema.typeOf? tag = some type)
    (h : schema.misfit? tag p = none) : schema.Keeps tag p ↔ ¬ p.HasLineFeed := by
  have hvalues := admits_of_misfit? htype h
  -- The form of a value matters twice: to an interval, and to a single value that
  -- could be taken for one.
  by_cases hop : p.op = .between
  · rcases Predicate.eq_between p hop (schema.hasValidArity_of_misfit? tag p h) with
      ⟨low, high, rfl⟩
    have hordered := isOrdered_of_misfit? htype h
    have hlow := hvalues rfl low (by simp [Predicate.between])
    have hhigh := hvalues rfl high (by simp [Predicate.between])
    have hcomma := type.comma_notMem_of_admits high hordered hhigh
    rw [keeps_between, Predicate.hasLineFeed_between, not_or, allowsRange_eq htype]
    constructor
    · exact fun hkeeps => ⟨hkeeps.2.1, hkeeps.2.2.1⟩
    · refine fun hlf => ⟨hordered, hlf.1, hlf.2, ?_⟩
      -- Without the suffix of a zone, each bound has to hold something of its own.
      split
      · exact hcomma
      · exact ⟨type.ne_empty_of_admits low hordered hlow,
          type.ne_empty_of_admits high hordered hhigh,
          fun hc => hcomma (List.dropLast_subset _ hc)⟩
  · have hother : ¬ p.HasLineFeed := by
      rintro ⟨_, _, heq, _⟩
      exact hop (congrArg Predicate.op heq)
    refine iff_of_true ?_ hother
    by_cases heq : ∃ v, p = ⟨.eq, [v]⟩
    · rcases heq with ⟨v, rfl⟩
      rw [keeps_single, allowsRange_eq htype]
      exact fun hordered _ => not_isInterval_of_comma_notMem _
        (type.comma_notMem_of_admits v hordered (hvalues rfl v List.mem_cons_self))
    · exact schema.keeps_of_other tag p hop fun v hv => heq ⟨v, hv⟩

end Schema

namespace Addressing

variable (a : Addressing) (tag : String) (p : Predicate)

/-- A filter of one condition is written as a whole. -/
theorem writtenPart_single (hexcluded : a.excluded ≠ some tag) (hset : p.isUnset = false) :
    a.writtenPart (.ofList [(tag, [p])]) = .ofList [(tag, [p])] := by
  refine OrderedMap.ext ?_
  have hentries : (OrderedMap.ofList [(tag, [p])] : Filter).entries = [(tag, [p])] := rfl
  simp [writtenPart, hentries, hexcluded, hset]

/-- Each checked condition can be written, and it is read back unless it is an
    interval with a line feed. -/
theorem checked_returns_iff (type : ValueType) (columns : List String) (sort : List SortKey)
    (hbase : PlainBase a.base.toList) (hexcluded : a.excluded ≠ some tag) (hcolumns : columns ≠ [])
    (htag : tag ≠ "") (htype : a.schema.typeOf? tag = some type) (hset : p.isUnset = false)
    (hfit : a.schema.misfit? tag p = none) :
    ∃ address, a.address? (.ofList [(tag, [p])]) columns sort = .ok address ∧
      ((a.reading.query address).filter = .ofList [(tag, [p])] ↔ ¬ p.HasLineFeed) := by
  have hwritten := a.writtenPart_single tag p hexcluded hset
  have hentries : (OrderedMap.ofList [(tag, [p])] : Filter).entries = [(tag, [p])] := rfl
  have harity : ∀ e ∈ (OrderedMap.ofList [(tag, [p])] : Filter).entries, ∀ q ∈ e.2,
      q.hasValidArity = true := by
    rw [hentries]
    simpa using a.schema.hasValidArity_of_misfit? tag p hfit
  have hok := (a.address?_eq_ok_iff (.ofList [(tag, [p])]) columns sort _).mpr
    ⟨hcolumns, by
      rw [hwritten]
      intro c hc
      rcases (OrderedMap.mem_ungrouped _ c).mp hc with ⟨ps, hps, hmem⟩
      exact harity _ hps c.2 hmem, rfl⟩
  refine ⟨_, hok, ?_⟩
  -- The filter comes back as a whole exactly when its one condition does.
  rw [a.filter_written _ columns sort _ hbase ?_ hok, hwritten, a.filter_reread_iff _ harity,
    hentries, ← Schema.keeps_iff_of_misfit? htype hfit]
  · simp
  · rw [hwritten, hentries]
    simpa using htag

/-- Blanks around a bound and between its parts do no harm. -/
theorem checked_returns_blanks :
    let schema : Schema := .ofList [("when", { type := .timestamp })]
    let a : Addressing := ⟨"h/", schema, ⟨-28800, by decide⟩, {}, none⟩
    let p : Predicate := .between " 2020-1-1" "2020-01-01   9:30\t"
    ∃ address, a.address? (.ofList [("when", [p])]) [""] [] = .ok address ∧
      (a.reading.query address).filter = .ofList [("when", [p])] := by
  intro schema a p
  have hbase : PlainBase a.base.toList :=
    ⟨Or.inr ⟨['h'], by decide +revert⟩, by decide +revert, by decide +revert⟩
  have hfit : a.schema.misfit? "when" p = none := by rfl
  rcases checked_returns_iff a "when" p .timestamp [""] [] hbase (fun h => nomatch h)
    (by decide) (by decide) rfl rfl hfit with ⟨address, hok, hiff⟩
  refine ⟨address, hok, hiff.mpr ?_⟩
  rw [Predicate.hasLineFeed_between]
  decide

/-- A bound that ends in a line feed is a whole number to the check, but with it
    the interval is read back as a single value. -/
theorem checked_interval_lost :
    let schema : Schema := .ofList [("n", { type := .integer })]
    let a : Addressing := ⟨"h/", schema, .utc, {}, none⟩
    let p : Predicate := .between "10\n" "20"
    a.schema.misfit? "n" p = none ∧
      ∃ address, a.address? (.ofList [("n", [p])]) ["n"] [] = .ok address ∧
        (a.reading.query address).filter.entries = [("n", [⟨.eq, ["(10\n,20)"]⟩])] :=
  ⟨rfl, _, rfl, by rfl⟩

end Addressing

end TagCatalog
