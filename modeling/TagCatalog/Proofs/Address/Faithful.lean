import TagCatalog.Proofs.Address.Interval
import TagCatalog.Proofs.Address.Item
import TagCatalog.Proofs.Time.Zone

/-!
# Conditions That Come Back

Which conditions are read as themselves after they were written, exactly.

Two kinds of condition can change on the way, and both because an interval and
an equality with one value share a mark. An interval is written as one value,
and whether it is read as an interval depends on the tag, while its bounds are
found again only if no comma of the upper one is in the way. An equality with
one value is read as an interval if its value happens to have that form.

The suffix of points in time takes part in both. It stands between the upper
bound and the closing parenthesis, so on such a tag a bound may be empty but
the upper one may have no comma at all, and a single value never has the form
of an interval, because it ends in the suffix.

`Schema.Keeps` collects these conditions, and `reread_eq_iff` says that they
are exactly the ones under which a condition comes back.

## Main definitions

* `Addressing.reread`: What a written condition is read as.
* `Schema.Keeps`: The conditions that come back.

## Theorems

* `keeps_between`, `keeps_single`, `keeps_of_other`: What is kept, by kind.
* `strip_suffix`: The suffix that writing appends is what reading takes away.
* `reread_between_eq_iff_read`, `read?_suffix_iff`: The intervals that come back.
* `reread_single_eq_iff`: The equalities with one value that come back.
* `reread_of_other`: All other conditions come back.
* `reread_eq_iff`: Which conditions come back.
-/

namespace TagCatalog

open Text TagCatalog.Interval

/-- The conditions on a tag that come back when they are written and read. -/
structure Schema.Keeps (schema : Schema) (tag : String) (p : Predicate) : Prop where
  /-- An interval needs a tag that allows one and bounds that are found again. -/
  interval : ∀ low high, p = .between low high → schema.allowsRange tag = true ∧
    '\n' ∉ low.toList ∧ '\n' ∉ high.toList ∧
    if schema.isTimestamp tag then ',' ∉ high.toList
    else low ≠ "" ∧ high ≠ "" ∧ ',' ∉ high.toList.dropLast
  /-- A single value must not have the form of an interval, where one is allowed
      and no suffix follows the value. -/
  equality : ∀ value, p = ⟨.eq, [value]⟩ → schema.allowsRange tag = true →
    schema.isTimestamp tag = false → ¬ IsInterval value.toList

namespace Schema

variable (schema : Schema) (tag : String)

theorem keeps_between (low high : String) :
    schema.Keeps tag (.between low high) ↔ schema.allowsRange tag = true ∧
      '\n' ∉ low.toList ∧ '\n' ∉ high.toList ∧
      if schema.isTimestamp tag then ',' ∉ high.toList
      else low ≠ "" ∧ high ≠ "" ∧ ',' ∉ high.toList.dropLast := by
  refine ⟨fun h => h.interval low high rfl, fun h => ⟨fun l u heq => ?_, fun v heq => ?_⟩⟩
  · rcases (Predicate.between_inj low high l u).mp heq with ⟨rfl, rfl⟩
    exact h
  · exact Operator.noConfusion (congrArg Predicate.op heq)

theorem keeps_single (value : String) :
    schema.Keeps tag ⟨.eq, [value]⟩ ↔ (schema.allowsRange tag = true →
      schema.isTimestamp tag = false → ¬ IsInterval value.toList) := by
  refine ⟨fun h => h.equality value rfl, fun h => ⟨fun l u heq => ?_, fun v heq => ?_⟩⟩
  · exact Operator.noConfusion (congrArg Predicate.op heq)
  · have hvalues := congrArg Predicate.values heq
    simp only [List.cons.injEq, and_true] at hvalues
    rw [← hvalues]
    exact h

theorem keeps_of_other (p : Predicate) (hop : p.op ≠ .between) (heq : ∀ v, p ≠ ⟨.eq, [v]⟩) :
    schema.Keeps tag p :=
  ⟨fun _ _ h => absurd (congrArg Predicate.op h) hop, fun v h => absurd h (heq v)⟩

end Schema

namespace Addressing

variable (a : Addressing) (tag : String)

theorem suffix_of_isTimestamp (h : a.schema.isTimestamp tag = true) :
    a.suffix tag = a.zone.suffix := by
  rw [suffix, if_pos h]

theorem suffix_of_not_isTimestamp (h : a.schema.isTimestamp tag = false) : a.suffix tag = "" := by
  rw [suffix, h]
  rfl

/-- No suffix has a comma, a line feed or a parenthesis. -/
theorem not_mem_suffix (c : Char) (h : c ≠ '+' ∧ c ≠ '-' ∧ c ≠ ':' ∧ c.isDigit = false) :
    c ∉ (a.suffix tag).toList := by
  unfold suffix
  split
  · exact Zone.not_mem_suffix a.zone c h
  · exact List.not_mem_nil

/-- The suffix that writing appends is what reading takes away. -/
theorem strip_suffix (value : List Char) :
    a.reading.strip tag (value ++ (a.suffix tag).toList) = String.ofList value := by
  unfold Reading.strip reading
  cases h : a.schema.isTimestamp tag with
  | false => simp [suffix, h]
  | true =>
    have hstrip : stripEnd? a.zone.suffix.toList (value ++ a.zone.suffix.toList) = some value :=
      (stripEnd?_eq_some_iff _ _ _).mpr rfl
    simp only [if_true, suffix, h, hstrip, Option.getD_some]

/-- What is left of a value is the value itself, or the value was it with the
    suffix. -/
theorem eq_or_eq_of_strip (value : List Char) (s : String) (h : a.reading.strip tag value = s) :
    value = s.toList ∨ value = s.toList ++ (a.suffix tag).toList := by
  subst h
  unfold Reading.strip reading
  cases hts : a.schema.isTimestamp tag with
  | false => exact Or.inl (by simp)
  | true =>
    simp only [if_true, String.toList_ofList]
    cases hstrip : stripEnd? a.zone.suffix.toList value with
    | none => exact Or.inl rfl
    | some r =>
      right
      rw [suffix_of_isTimestamp a tag hts]
      exact (stripEnd?_eq_some_iff _ _ _).mp hstrip

/-- What a written condition is read as. -/
def reread (p : Predicate) : Predicate :=
  a.reading.predicate tag (p.written (a.suffix tag)).op (p.written (a.suffix tag)).values

theorem toList_interval (suffix low high : String) :
    ("(" ++ low ++ suffix ++ "," ++ high ++ suffix ++ ")").toList =
      '(' :: (low.toList ++ suffix.toList) ++ ',' :: (high.toList ++ suffix.toList) ++ [')'] := by
  simp [String.toList_append]

/-- Bounds that were read from an interval and that hold the written ones but
    perhaps for the suffix are the written ones with the suffix. -/
theorem bounds_eq_of_text (low high s l h : List Char) (hl : l = low ∨ l = low ++ s) (hs : ',' ∉ s)
    (htext : low ++ s ++ ',' :: (high ++ s) = l ++ ',' :: h) : l = low ++ s ∧ h = high ++ s := by
  rcases hl with rfl | rfl
  · rw [List.append_assoc, List.append_cancel_left_eq] at htext
    cases s with
    | nil =>
      rw [List.nil_append, List.cons.injEq] at htext
      exact ⟨(List.append_nil l).symm, htext.2.symm⟩
    | cons c s =>
      -- The suffix would have to begin with the comma.
      rw [List.cons_append, List.cons.injEq] at htext
      rw [htext.1] at hs
      exact absurd List.mem_cons_self hs
  · rw [List.append_cancel_left_eq, List.cons.injEq] at htext
    exact ⟨rfl, htext.2.symm⟩

/-- An interval comes back exactly when the tag allows one and the bounds that
    are read are the ones that were written. -/
theorem reread_between_eq_iff_read (low high : String) :
    a.reread tag (.between low high) = .between low high ↔
      a.schema.allowsRange tag = true ∧
      read? ('(' :: (low.toList ++ (a.suffix tag).toList) ++
        ',' :: (high.toList ++ (a.suffix tag).toList) ++ [')']) =
      some (low.toList ++ (a.suffix tag).toList, high.toList ++ (a.suffix tag).toList) := by
  unfold reread
  rw [Predicate.written_between]
  simp only [Reading.predicate, toList_interval]
  by_cases hallow : a.schema.allowsRange tag = true
  · rw [if_pos (show a.reading.schema.allowsRange tag = true from hallow)]
    simp only [hallow, true_and]
    cases hread : read? ('(' :: (low.toList ++ (a.suffix tag).toList) ++
        ',' :: (high.toList ++ (a.suffix tag).toList) ++ [')']) with
    | none =>
      refine iff_of_false (fun h => ?_) (Option.some_ne_none _).symm
      exact Operator.noConfusion (congrArg Predicate.op h)
    | some bounds =>
      rcases bounds with ⟨l, h⟩
      simp only [Option.some.injEq, Prod.mk.injEq]
      constructor
      · intro heq
        -- The bounds that are read hold the written ones, perhaps with the suffix.
        have hbounds := (Predicate.between_inj _ _ _ _).mp heq
        have htext := ((read?_eq_some_iff _ l h).mp hread).1
        simp only [List.cons_append, List.cons.injEq, true_and] at htext
        exact bounds_eq_of_text _ _ _ l h (eq_or_eq_of_strip a tag l low hbounds.1)
          (not_mem_suffix a tag ',' (by decide)) (List.append_cancel_right htext)
      · rintro ⟨rfl, rfl⟩
        rw [strip_suffix, strip_suffix, String.ofList_toList, String.ofList_toList]
  · rw [if_neg (show ¬ a.reading.schema.allowsRange tag = true from hallow)]
    refine iff_of_false (fun h => ?_) fun h => hallow h.1
    exact Operator.noConfusion (congrArg Predicate.op h)

/-- When the bounds with their suffix are the ones that are read. -/
theorem read?_suffix_iff (low high : String) :
    read? ('(' :: (low.toList ++ (a.suffix tag).toList) ++
        ',' :: (high.toList ++ (a.suffix tag).toList) ++ [')']) =
      some (low.toList ++ (a.suffix tag).toList, high.toList ++ (a.suffix tag).toList) ↔
    '\n' ∉ low.toList ∧ '\n' ∉ high.toList ∧
      if a.schema.isTimestamp tag then ',' ∉ high.toList
      else low ≠ "" ∧ high ≠ "" ∧ ',' ∉ high.toList.dropLast := by
  have hlf := not_mem_suffix a tag '\n' (by decide)
  have hcomma := not_mem_suffix a tag ',' (by decide)
  rw [read?_eq_some_iff]
  cases hts : a.schema.isTimestamp tag with
  | false =>
    -- Without a suffix the conditions are those of reading, in another order.
    simp only [suffix_of_not_isTimestamp a tag hts, String.toList_empty, List.append_nil, ne_eq,
      String.toList_eq_nil_iff, Bool.false_eq_true, if_false, true_and]
    exact ⟨fun h => ⟨h.2.2.1, h.2.2.2.1, h.1, h.2.1, h.2.2.2.2⟩,
      fun h => ⟨h.2.2.1, h.2.2.2.1, h.1, h.2.1, h.2.2.2.2⟩⟩
  | true =>
    -- The suffix fills both bounds and ends the upper one without a comma.
    have hne : (a.suffix tag).toList ≠ [] := by
      rw [suffix_of_isTimestamp a tag hts]
      exact Zone.suffix_ne_nil a.zone
    have hdrop : ',' ∉ (a.suffix tag).toList.dropLast := fun h => hcomma (List.dropLast_subset _ h)
    simp only [List.dropLast_append_of_ne_nil hne, List.mem_append, hlf, hdrop, or_false, if_true,
      true_and]
    constructor
    · exact fun h => ⟨h.2.2.1, h.2.2.2.1, h.2.2.2.2⟩
    · exact fun h => ⟨List.append_ne_nil_of_right_ne_nil _ hne,
        List.append_ne_nil_of_right_ne_nil _ hne, h.1, h.2.1, h.2.2⟩

/-- A value that carries the suffix of points in time never has the form of an
    interval. -/
theorem not_isInterval_suffix (value : List Char) (h : a.schema.isTimestamp tag = true) :
    ¬ IsInterval (value ++ (a.suffix tag).toList) := by
  rintro ⟨low, high, htext, _⟩
  have hparen := not_mem_suffix a tag ')' (by decide)
  rw [suffix_of_isTimestamp a tag h] at hparen htext
  -- The last character would be both the suffix's and the parenthesis.
  rcases List.eq_nil_or_concat a.zone.suffix.toList with hnil | ⟨front, c, hc⟩
  · exact Zone.suffix_ne_nil a.zone hnil
  · rw [hc, List.concat_eq_append] at hparen htext
    rw [← List.append_assoc] at htext
    have hlast : [c] = [')'] := List.append_inj_right' htext rfl
    rw [hlast] at hparen
    exact hparen (List.mem_append_right front (List.mem_singleton_self ')'))

/-- An equality with one value comes back exactly when it is not taken for an
    interval. -/
theorem reread_single_eq_iff (value : String) :
    a.reread tag ⟨.eq, [value]⟩ = ⟨.eq, [value]⟩ ↔
      (a.schema.allowsRange tag = true → a.schema.isTimestamp tag = false →
        ¬ IsInterval value.toList) := by
  have hplain : a.reading.strip tag (value ++ a.suffix tag).toList = value := by
    rw [String.toList_append, strip_suffix, String.ofList_toList]
  have hstays : read? (value ++ a.suffix tag).toList = none →
      a.reread tag ⟨.eq, [value]⟩ = ⟨.eq, [value]⟩ := by
    intro hread
    simp only [reread, Predicate.written, List.map_cons, List.map_nil, Reading.predicate, hread,
      hplain, ite_self]
  by_cases hallow : a.schema.allowsRange tag = true
  · cases hts : a.schema.isTimestamp tag with
    | true =>
      -- The suffix stands behind any closing parenthesis.
      refine iff_of_true (hstays ?_) fun _ h => Bool.noConfusion h
      rw [read?_eq_none_iff, String.toList_append]
      exact not_isInterval_suffix a tag value.toList hts
    | false =>
      -- The value is written as it is, so its own form decides.
      have hvalue : (value ++ a.suffix tag).toList = value.toList := by
        rw [suffix_of_not_isTimestamp a tag hts, String.append_empty]
      rw [hvalue] at hstays hplain
      constructor
      · intro h _ _
        rw [← read?_eq_none_iff]
        cases hread : read? value.toList with
        | none => rfl
        | some bounds =>
          simp only [reread, Predicate.written, List.map_cons, List.map_nil, Reading.predicate,
            hvalue, hread] at h
          rw [if_pos (show a.reading.schema.allowsRange tag = true from hallow)] at h
          exact Operator.noConfusion (congrArg Predicate.op h)
      · exact fun h => hstays ((read?_eq_none_iff _).mpr (h hallow rfl))
  · refine iff_of_true ?_ fun h => absurd h hallow
    simp only [reread, Predicate.written, List.map_cons, List.map_nil, Reading.predicate, hplain]
    rw [if_neg (show ¬ a.reading.schema.allowsRange tag = true from hallow)]

/-- A condition that is neither an interval nor an equality with one value
    comes back. -/
theorem reread_of_other (p : Predicate) (hop : p.op ≠ .between) (heq : ∀ v, p ≠ ⟨.eq, [v]⟩) :
    a.reread tag p = p := by
  have hvalues : (p.values.map fun v => v ++ a.suffix tag).map
      (fun v => a.reading.strip tag v.toList) = p.values := by
    rw [List.map_map]
    refine (List.map_congr_left fun v _ => ?_).trans (List.map_id _)
    rw [Function.comp_apply, String.toList_append, strip_suffix, String.ofList_toList]
    rfl
  unfold reread
  rw [Predicate.written_of_ne_between _ p hop]
  unfold Reading.predicate
  split
  · next value hop' hvalue =>
    rcases List.map_eq_singleton_iff.mp hvalue with ⟨v, hv, _⟩
    exact absurd (by rw [← hop', ← hv]) (heq v)
  · rw [hvalues]

/-- A condition with the right number of values comes back exactly when it is
    one of those that are kept. -/
theorem reread_eq_iff (p : Predicate) (hp : p.hasValidArity = true) :
    a.reread tag p = p ↔ a.schema.Keeps tag p := by
  by_cases hop : p.op = .between
  · rcases Predicate.eq_between p hop hp with ⟨low, high, rfl⟩
    rw [reread_between_eq_iff_read, read?_suffix_iff, Schema.keeps_between]
  · by_cases heq : ∃ v, p = ⟨.eq, [v]⟩
    · rcases heq with ⟨v, rfl⟩
      rw [reread_single_eq_iff, Schema.keeps_single]
    · have hother : ∀ v, p ≠ ⟨.eq, [v]⟩ := fun v h => heq ⟨v, h⟩
      exact iff_of_true (reread_of_other a tag p hop hother)
        (a.schema.keeps_of_other tag p hop hother)

end Addressing

end TagCatalog
