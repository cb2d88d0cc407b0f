import TagCatalog.Proofs.Address.Clause
import TagCatalog.Proofs.Time.Distance
import TagCatalog.Proofs.View.Constraint

/-!
# Distances in Written Values

Which distances from universal time the values of a written condition have.

The suffix of the zone is put behind each value of a tag whose values are points in time.
It completes a value that leaves its distance open. A check of values admits also those
that do not, and about them the writer asks nothing: the type of the tag decides alone.

What a condition states is read off its item without a schema: the values behind the mark,
decoded, and the two bounds where there is an interval. For a checked condition these are
its own values with the suffix behind them, because neither a point in time nor a suffix
has a comma. `offsets_written` puts this together with what a point in time can end in.
The suffix is the only distance of a value exactly if the value is no timestamp that names
its own.

## Main definitions

* `bounds`: The bounds of an interval, or a text that is none.
* `statedValues`: The values that an item states.

## Theorems

* `bounds_of_comma_notMem`, `bounds_interval`: Texts without a comma, and intervals.
* `statedValues_item`: The values of a written condition.
* `statedValues_of_misfit?`: The values of a checked condition on points in time.
* `offsets_written`: Which values of a clause state one distance.
* `offset_written_twice`: A value with two of them.
-/

namespace TagCatalog

open Text Percent

/-- The bounds of an interval in parentheses, or else the text itself. -/
def bounds (cs : List Char) : List (List Char) :=
  match ((stripStart? ['('] cs).bind (stripEnd? [')'])).bind (cut? ',') with
  | some (low, high) => [low, high]
  | none => [cs]

/-- The values that an item states behind its mark, each of them decoded, and intervals taken
    apart. -/
def statedValues (item : List Char) : List (List Char) :=
  match operatorAtStart? (item.dropWhile isPlain) with
  | some (_, values) => (splitOn ',' values).flatMap fun value => bounds (unescape value).toList
  | none => []

theorem bounds_of_comma_notMem {cs : List Char} (h : ',' ∉ cs) : bounds cs = [cs] := by
  have hcut : ((stripStart? ['('] cs).bind (stripEnd? [')'])).bind (cut? ',') = none := by
    rw [Option.bind_eq_none_iff]
    intro inner hinner
    rcases Option.bind_eq_some_iff.mp hinner with ⟨back, hstart, hend⟩
    rw [stripStart?_eq_some_iff] at hstart
    rw [stripEnd?_eq_some_iff] at hend
    rw [cut?_eq_none_iff]
    intro hc
    rw [hstart, hend] at h
    exact h (by simp [hc])
  rw [bounds, hcut]

theorem bounds_interval {low : List Char} (hlow : ',' ∉ low) (high : List Char) :
    bounds ('(' :: (low ++ ',' :: high ++ [')'])) = [low, high] := by
  have hcut : ((stripStart? ['('] ('(' :: (low ++ ',' :: high ++ [')']))).bind
      (stripEnd? [')'])).bind (cut? ',') = some (low, high) := by
    refine Option.bind_eq_some_iff.mpr ⟨low ++ ',' :: high,
      Option.bind_eq_some_iff.mpr ⟨low ++ ',' :: high ++ [')'], ?_, ?_⟩, ?_⟩
    · exact (stripStart?_eq_some_iff _ _ _).mpr rfl
    · exact (stripEnd?_eq_some_iff _ _ _).mpr rfl
    · exact (cut?_eq_some_iff _ _ _ _).mpr ⟨rfl, hlow⟩
  rw [bounds, hcut]

/-- The values of a written condition are those that it was written from. -/
theorem statedValues_item (suffix tag : String) (p : Predicate)
    (hop : (p.written suffix).op ∈ markedOperators) (hvalues : (p.written suffix).values ≠ []) :
    statedValues (p.item suffix tag) =
      (p.written suffix).values.flatMap fun value => bounds value.toList := by
  rcases mark_eq_cons _ hop with ⟨m, ms, hmark, hplain⟩
  -- The name is plain, and the mark is not.
  have hdrop : (p.item suffix tag).dropWhile isPlain =
      (p.written suffix).op.mark ++ joinWith ',' ((p.written suffix).values.map escape) := by
    rw [Predicate.item_eq_written, hmark, List.append_assoc, List.cons_append]
    exact dropWhile_append_cons isPlain _ _ m (isPlain_of_mem_escape tag) hplain
  have hsplit : splitOn ',' (joinWith ',' ((p.written suffix).values.map escape)) =
      (p.written suffix).values.map escape := by
    refine splitOn_joinWith ',' _ (by simpa using hvalues) fun v hv => ?_
    rcases List.mem_map.mp hv with ⟨w, _, rfl⟩
    exact not_mem_encode holdsDigits_name (by decide)
  unfold statedValues
  rw [hdrop, operatorAtStart?_mark _ hop]
  simp only [hsplit, List.flatMap_map, unescape_escape]

/-- Equality and order have a mark and take some values. -/
theorem Operator.marked_of_isTyped (op : Operator) (h : op.isTyped = true) (hne : op ≠ .between) :
    op ∈ markedOperators ∧ op.arity = .atLeastOne := by
  cases op with
  | eq | neq | less | lessEq | greater | greaterEq => exact ⟨by decide, rfl⟩
  | between => exact absurd rfl hne
  | _ => exact absurd h (by decide)

variable {schema : Schema} {tag : String} {p : Predicate}

/-- A checked condition on points in time states its own values, each of them with the suffix
    behind it. -/
theorem statedValues_of_misfit? (zone : Zone) (htype : schema.typeOf? tag = some .timestamp)
    (hp : schema.misfit? tag p = none) (hop : p.op.isTyped = true) :
    statedValues (p.item zone.suffix tag) =
      p.values.map fun value => value.toList ++ zone.suffix.toList := by
  have hadmits := Schema.admits_of_misfit? htype hp hop
  have harity := schema.hasValidArity_of_misfit? tag p hp
  -- Neither a value nor the suffix has a comma.
  have hcomma : ∀ value ∈ p.values, ',' ∉ value.toList ++ zone.suffix.toList := by
    intro value hvalue
    rw [List.mem_append, not_or]
    exact ⟨ValueType.comma_notMem_of_admits .timestamp value rfl (hadmits value hvalue),
      zone.not_mem_suffix ',' (by decide)⟩
  by_cases hbetween : p.op = .between
  · rcases Predicate.eq_between p hbetween harity with ⟨low, high, rfl⟩
    have hmarked : Operator.eq ∈ markedOperators := by decide
    have hstated := statedValues_item zone.suffix tag (.between low high) hmarked
      (List.cons_ne_nil _ _)
    rw [hstated, Predicate.written_between]
    have htext : ("(" ++ low ++ zone.suffix ++ "," ++ high ++ zone.suffix ++ ")").toList =
        '(' :: (low.toList ++ zone.suffix.toList ++
          ',' :: (high.toList ++ zone.suffix.toList) ++ [')']) := by
      simp only [String.toList_append, List.append_assoc, List.cons_append]
      rfl
    rw [List.flatMap_singleton, htext, bounds_interval (hcomma low List.mem_cons_self)]
    rfl
  · -- Every other typed operator has a mark and some values.
    have hwritten := Predicate.written_of_ne_between zone.suffix p hbetween
    rcases Operator.marked_of_isTyped p.op hop hbetween with ⟨hmarked, hcount⟩
    have hvalues : p.values ≠ [] := by
      rw [Predicate.hasValidArity, Operator.accepts, hcount] at harity
      rintro hnil
      rw [hnil] at harity
      exact absurd harity (by decide)
    have hstated := statedValues_item zone.suffix tag p (by rw [hwritten]; exact hmarked)
      (by rw [hwritten]; simpa using hvalues)
    rw [hstated, hwritten, List.flatMap_map, List.map_eq_flatMap]
    refine List.flatMap_congr fun value hvalue => ?_
    rw [String.toList_append, bounds_of_comma_notMem (hcomma value hvalue)]

namespace Addressing

/-- Conditions that were checked can be written, and every clause is the items of its conditions.
    An item of a checked condition on points in time, with equality, an order or an interval,
    states the values of the condition with the suffix of the zone behind each. This is the only
    distance of the value exactly if the value is not a timestamp that names its own. -/
theorem offsets_written (a : Addressing) (filter : Filter) :
    ((∀ c ∈ a.conditions filter, a.schema.misfit? c.1 c.2 = none) →
      ∃ clause, a.clause? filter = .ok clause) ∧
    ∀ clause, a.clause? filter = .ok clause → ∃ items,
      clause = joinWith ';' items ∧ (∀ item ∈ items, ';' ∉ item) ∧
      List.Forall₂ (fun c item => a.schema.typeOf? c.1 = some .timestamp → c.2.op.isTyped = true →
        a.schema.misfit? c.1 c.2 = none →
          statedValues item = c.2.values.map (fun value => value.toList ++ a.zone.suffix.toList) ∧
          ∀ value ∈ c.2.values, Stamp.StatesOnce (value.toList ++ a.zone.suffix.toList) ↔
            Stamp.isComplete (trim value.toList) = false) (a.conditions filter) items := by
  constructor
  · intro hchecked
    refine ⟨_, (a.clause?_eq_ok_iff filter _).mpr ⟨rfl, fun c hc => ?_⟩⟩
    rw [← conditions_eq] at hc
    exact a.schema.hasValidArity_of_misfit? c.1 c.2 (hchecked c hc)
  · intro clause hclause
    rw [clause?_eq_ok_iff, clauseText, ← conditions_eq] at hclause
    refine ⟨_, hclause.1, semicolon_not_mem_item a.suffix _, ?_⟩
    rw [List.forall₂_map_right_iff, List.forall₂_same]
    intro c _ htype hop hchecked
    have hsuffix : a.suffix c.1 = a.zone.suffix := by
      rw [suffix, Schema.isTimestamp, htype]
      rfl
    rw [hsuffix]
    refine ⟨statedValues_of_misfit? a.zone htype hchecked hop, fun value hvalue => ?_⟩
    -- A checked value is a point in time but for the blanks around it.
    have hmoment : Stamp.isMoment (trim value.toList) = true :=
      Schema.admits_of_misfit? htype hchecked hop value hvalue
    rw [Stamp.statesOnce_append_suffix_iff, Stamp.endsInDistance_iff_isComplete hmoment,
      Bool.not_eq_true]

/-- In one interval the first bound states the distance of the zone, and the second one states
    its own as well. -/
theorem offsets_written_interval :
    let schema : Schema := .ofList [("m", { type := .timestamp })]
    let a : Addressing := ⟨"h/", schema, ⟨-28800, by decide⟩, {}, none⟩
    let p : Predicate := .between "2020-01-01 10:30" "2020-01-01T10:30:15Z"
    schema.misfit? "m" p = none ∧ ∃ item, a.clause? (.ofList [("m", [p])]) = .ok item ∧
      statedValues item = ["2020-01-01 10:30-08:00".toList, "2020-01-01T10:30:15Z-08:00".toList] ∧
      Stamp.StatesOnce "2020-01-01 10:30-08:00".toList ∧
      ¬ Stamp.StatesOnce "2020-01-01T10:30:15Z-08:00".toList := by
  intro schema a p
  have hchecked : schema.misfit? "m" p = none := rfl
  have hconditions : a.conditions (.ofList [("m", [p])]) = [("m", p)] := rfl
  rcases offsets_written a (.ofList [("m", [p])]) with ⟨hwritten, hclauses⟩
  rw [hconditions] at hwritten hclauses
  rcases hwritten fun c hc => List.mem_singleton.mp hc ▸ hchecked with ⟨clause, hclause⟩
  rcases hclauses clause hclause with ⟨items, hitems, _, hall⟩
  rcases List.forall₂_cons_left_iff.mp hall with ⟨item, rest, hitem, hrest, rfl⟩
  rw [List.forall₂_nil_left_iff] at hrest
  rw [hrest, joinWith_singleton] at hitems
  rcases hitem rfl rfl hchecked with ⟨hstated, honce⟩
  -- The suffix completes the texts of both values.
  have hlow : "2020-01-01 10:30".toList ++ a.zone.suffix.toList =
      "2020-01-01 10:30-08:00".toList := by
    decide +kernel
  have hhigh : "2020-01-01T10:30:15Z".toList ++ a.zone.suffix.toList =
      "2020-01-01T10:30:15Z-08:00".toList := by
    decide +kernel
  rw [← hlow, ← hhigh]
  refine ⟨hchecked, item, hitems ▸ hclause, hstated, ?_, fun htwice => ?_⟩
  · exact (honce "2020-01-01 10:30" List.mem_cons_self).mpr rfl
  · exact Bool.noConfusion
      ((honce "2020-01-01T10:30:15Z" (by simp [p, Predicate.between])).mp htwice)

/-- A timestamp that names its own distance is checked and is written with another one. -/
theorem offset_written_twice :
    let schema : Schema := .ofList [("modified", { type := .timestamp })]
    let a : Addressing := ⟨"h/", schema, ⟨-28800, by decide⟩, {}, none⟩
    let p : Predicate := ⟨.greaterEq, ["2020-01-01T10:30:15-08:00"]⟩
    let item := "modified:geq:2020-01-01T10%3A30%3A15-08%3A00-08%3A00".toList
    schema.misfit? "modified" p = none ∧ p.op.isTyped = true ∧
      a.clause? (.ofList [("modified", [p])]) = .ok item ∧
      statedValues item = ["2020-01-01T10:30:15-08:00-08:00".toList] ∧
      ¬ Stamp.StatesOnce "2020-01-01T10:30:15-08:00-08:00".toList := by
  intro schema a p item
  have htext : "2020-01-01T10:30:15-08:00".toList ++ a.zone.suffix.toList =
      "2020-01-01T10:30:15-08:00-08:00".toList := by
    decide +kernel
  have hclause : a.clause? (.ofList [("modified", [p])]) = .ok item :=
    (a.clause?_eq_ok_iff _ _).mpr ⟨by decide +kernel, by decide⟩
  refine ⟨rfl, rfl, hclause, by decide +kernel, fun h => ?_⟩
  -- The suffix is a second distance behind the one that was there.
  have hends : Stamp.EndsInDistance (trim "2020-01-01T10:30:15-08:00".toList) :=
    Stamp.endsInDistance_of_isComplete rfl
  rw [← htext, Stamp.statesOnce_append_suffix_iff] at h
  exact h hends

end Addressing

end TagCatalog
