import TagCatalog.Proofs.Address.NormalForm

/-!
# Addresses in Other Zones

What an address is read as in another zone than it was written in.

Points in time are written with the suffix of the zone, and reading takes away the
suffix of its own zone only. All suffixes have the same length, so none ends in
another one. Hence there are two cases. Either the two zones have the same suffix,
and it is taken away as it would be at home, or each point in time keeps the
foreign suffix as a part of its value.

Such a value is a moment that is fixed, whichever zone it is read in. It is not
written as before, however, because writing appends the suffix of the own zone to
every value. `clause_abroad_iff` says when a clause that was read abroad is
written as the same text: when the zones have the same suffix, or no condition on
a point in time has a value.

## Main definitions

* `Predicate.followedBy`: A condition with a text behind each of its values.
* `Schema.Portable`: Conditions whose values have no marks of intervals.
* `Addressing.abroad`: The same settings in another zone.
* `Addressing.foreignSuffix`: What stays behind a value that is read abroad.
* `Addressing.readAbroad`: What a filter is read as in another zone.

## Theorems

* `Predicate.written_followedBy`, `Predicate.item_followedBy`: Writing a text behind
  each value.
* `Predicate.written_eq_iff`, `Predicate.item_eq_iff`: A written condition determines
  its suffix, if it has a value.
* `Addressing.strip_abroad`: What is read of one value.
* `Addressing.ofWritten_abroad`: What is read of one condition.
* `Addressing.clauseText_abroad`: How a filter is written that was read abroad.
* `Addressing.clause_abroad_iff`: What is read of a filter, and when it is written as
  before.
* `Addressing.clause_abroad_twice`: A clause that is not written as before.
-/

namespace TagCatalog

open Text OrderedMap TagCatalog.Interval

/-- Where values are plain text, they are read as they stand. -/
theorem Reading.predicate_of_text (r : Reading) (tag : String) (op : Operator)
    (values : List String) (htext : r.schema.typeOf? tag = some .text) :
    r.predicate tag op values = ⟨op, values⟩ := by
  have hts : r.schema.isTimestamp tag = false := by
    rw [Schema.isTimestamp, htext]
    rfl
  have hallow : ¬ r.schema.allowsRange tag = true := by
    rw [Schema.allowsRange, htext]
    exact Bool.false_ne_true
  have hplain : values.map (fun v => r.strip tag v.toList) = values := by
    rw [map_eq_iff]
    intro v _
    rw [r.strip_of_not_isTimestamp tag v.toList hts, String.ofList_toList]
  unfold predicate
  rw [hplain]
  split
  · rw [if_neg hallow]
  · rfl

namespace Predicate

/-- A condition with a text behind each of its values. -/
def followedBy (text : String) (p : Predicate) : Predicate :=
  ⟨p.op, p.values.map fun v => v ++ text⟩

variable {p : Predicate} {tag : String}

theorem followedBy_hasValidArity (text : String) (p : Predicate) :
    (p.followedBy text).hasValidArity = p.hasValidArity := by
  rw [hasValidArity, hasValidArity, followedBy, List.length_map]

-- A text behind each value and a suffix behind that are one suffix.
theorem written_followedBy (text suffix : String) (hp : p.hasValidArity = true) :
    (p.followedBy text).written suffix = p.written (text ++ suffix) := by
  by_cases hop : p.op = .between
  · rcases eq_between p hop hp with ⟨low, high, rfl⟩
    show (between (low ++ text) (high ++ text)).written suffix = _
    rw [written_between, written_between]
    simp only [String.append_assoc]
  · rw [written_of_ne_between suffix (p.followedBy text) hop, written_of_ne_between _ p hop,
      followedBy, List.map_map]
    simp only [Function.comp_def, String.append_assoc]

theorem item_followedBy (text suffix : String) (hp : p.hasValidArity = true) :
    (p.followedBy text).item suffix tag = p.item (text ++ suffix) tag := by
  rw [item_eq_written, item_eq_written, written_followedBy text suffix hp]

/-- What a condition is written from determines the suffix, if there is a value. -/
theorem written_eq_iff (s s' : String) (hp : p.hasValidArity = true) :
    p.written s = p.written s' ↔ s = s' ∨ p.values = [] := by
  by_cases hop : p.op = .between
  · rcases eq_between p hop hp with ⟨low, high, rfl⟩
    refine ⟨fun h => Or.inl ?_, fun h => ?_⟩
    · rw [written_between, written_between, Predicate.mk.injEq, List.cons.injEq,
        ← String.toList_inj, Addressing.toList_interval, Addressing.toList_interval] at h
      have htext := List.append_cancel_right h.2.1
      simp only [List.cons_append, List.append_assoc, List.cons.injEq, true_and,
        List.append_cancel_left_eq] at htext
      -- The suffix comes twice on each side, so both are equally long.
      have hlength := congrArg List.length htext
      simp only [List.length_append, List.length_cons] at hlength
      exact String.toList_inj.mp (List.append_inj_left htext (by omega))
    · rcases h with rfl | h
      · rfl
      · exact absurd h (List.cons_ne_nil _ _)
  · rw [written_of_ne_between s p hop, written_of_ne_between s' p hop, Predicate.mk.injEq,
      List.map_inj_left]
    constructor
    · rintro ⟨_, h⟩
      by_cases hvalues : p.values = []
      · exact Or.inr hvalues
      · rcases List.exists_mem_of_ne_nil p.values hvalues with ⟨v, hv⟩
        have hv' := congrArg String.toList (h v hv)
        rw [String.toList_append, String.toList_append, List.append_cancel_left_eq] at hv'
        exact Or.inl (String.toList_inj.mp hv')
    · rintro (rfl | h)
      · exact ⟨rfl, fun _ _ => rfl⟩
      · rw [h]
        exact ⟨rfl, fun _ hv => absurd hv List.not_mem_nil⟩

/-- Two items of a tag are the same text only if they are written from the same. -/
theorem written_of_item_eq (s s' : String) (htag : tag ≠ "") (hset : p.isUnset = false)
    (hp : p.hasValidArity = true) (h : p.item s tag = p.item s' tag) :
    p.written s = p.written s' := by
  -- Where values are plain text, reading an item gives back what it was written from.
  let r : Reading := ⟨.place .empty 0 tag ⟨.text, false, false⟩, .utc⟩
  have htext : r.schema.typeOf? tag = some .text := by
    rw [Schema.typeOf?, get?_place]
    rfl
  have hread : ∀ s, r.condition (p.item s tag) = (tag, p.written s) := by
    intro s
    rw [condition_item r s tag p htag hset hp, r.predicate_of_text tag _ _ htext]
  have hsame := (hread s).symm.trans ((congrArg _ h).trans (hread s'))
  exact (Prod.mk.inj hsame).2

theorem item_eq_iff (s s' : String) (htag : tag ≠ "") (hset : p.isUnset = false)
    (hp : p.hasValidArity = true) : p.item s tag = p.item s' tag ↔ s = s' ∨ p.values = [] := by
  rw [← written_eq_iff s s' hp]
  refine ⟨written_of_item_eq s s' htag hset hp, fun h => ?_⟩
  rw [item_eq_written, item_eq_written, h]

end Predicate

/-- Conditions whose values have no marks of intervals and no line feeds, and that
    are intervals only where the tag allows one and both bounds hold something. -/
structure Schema.Portable (schema : Schema) (tag : String) (p : Predicate) : Prop where
  arity : p.hasValidArity = true
  plain : ∀ v ∈ p.values, ∀ c ∈ [',', '(', ')', '\n'], c ∉ v.toList
  interval : p.op = .between → schema.allowsRange tag = true ∧ ∀ v ∈ p.values, v ≠ ""

namespace Addressing

variable (a : Addressing) (zone : Zone) (tag : String)

/-- The same settings in another zone. -/
def abroad : Addressing := { a with zone }

/-- What stays behind a value when it is read in another zone than it was written
    in. -/
def foreignSuffix : String :=
  if a.zone.suffix = zone.suffix then "" else a.suffix tag

theorem suffix_abroad : (a.abroad zone).suffix tag =
    if a.schema.isTimestamp tag then zone.suffix else "" := rfl

/-- A value that was written is read in another zone with what stays behind it. -/
theorem strip_abroad (value : List Char) :
    (a.abroad zone).reading.strip tag (value ++ (a.suffix tag).toList) =
      String.ofList (value ++ (a.foreignSuffix zone tag).toList) := by
  by_cases hzone : a.zone.suffix = zone.suffix
  · have hsuffix : a.suffix tag = (a.abroad zone).suffix tag := by
      rw [suffix_abroad, suffix, hzone]
    rw [foreignSuffix, if_pos hzone, hsuffix, strip_suffix, String.toList_empty, List.append_nil]
  · rw [foreignSuffix, if_neg hzone]
    unfold Reading.strip
    split
    · next hts =>
      -- Both suffixes have the same length, so only one of them is at the end.
      have hnone : stripEnd? zone.suffix.toList (value ++ (a.suffix tag).toList) = none := by
        rw [suffix_of_isTimestamp a tag hts, Option.eq_none_iff_forall_ne_some]
        intro front hfront
        rw [stripEnd?_eq_some_iff] at hfront
        have hlength : a.zone.suffix.toList.length = zone.suffix.toList.length := by
          rw [Zone.length_suffix, Zone.length_suffix]
        exact hzone (String.toList_inj.mp (List.append_inj_right' hfront hlength))
      show String.ofList ((stripEnd? zone.suffix.toList _).getD _) = _
      rw [hnone, Option.getD_none]
    · rfl

variable {tag} {p : Predicate}

-- Values without parentheses are no intervals, and with a suffix neither.
theorem not_isInterval_of_portable (hp : a.schema.Portable tag p) (v : String) (hv : v ∈ p.values) :
    ¬ IsInterval (v ++ a.suffix tag).toList := by
  rintro ⟨low, high, htext, _⟩
  have hmem : '(' ∈ (v ++ a.suffix tag).toList := by
    rw [htext]
    exact List.mem_cons_self
  rw [String.toList_append, List.mem_append] at hmem
  rcases hmem with hmem | hmem
  · exact hp.plain v hv '(' (by simp) hmem
  · exact not_mem_suffix a tag '(' (by decide) hmem

/-- A condition that was written is read in another zone with what stays behind its
    values. -/
theorem ofWritten_abroad (hp : a.schema.Portable tag p) :
    (a.abroad zone).reading.ofWritten (a.suffix tag) tag p =
      p.followedBy (a.foreignSuffix zone tag) := by
  have hstrip : ∀ v : String, (a.abroad zone).reading.strip tag
      (v ++ a.suffix tag).toList = v ++ a.foreignSuffix zone tag := by
    intro v
    rw [String.toList_append, strip_abroad, ← String.toList_append, String.ofList_toList]
  unfold Reading.ofWritten
  by_cases hop : p.op = .between
  · rcases Predicate.eq_between p hop hp.arity with ⟨low, high, rfl⟩
    have hlow := hp.plain low (by simp [Predicate.between])
    have hhigh := hp.plain high (by simp [Predicate.between])
    rcases hp.interval rfl with ⟨hallow, hne⟩
    -- The bounds with their suffix are the ones that are found.
    have hread := (read?_suffix_iff a tag low high).mpr
      ⟨hlow '\n' (by simp), hhigh '\n' (by simp), by
        split
        · exact hhigh ',' (by simp)
        · exact ⟨hne low (by simp [Predicate.between]), hne high (by simp [Predicate.between]),
            fun h => hhigh ',' (by simp) (List.dropLast_subset _ h)⟩⟩
    rw [Predicate.written_between]
    simp only [Reading.predicate, toList_interval, hread]
    rw [if_pos (show (a.abroad zone).reading.schema.allowsRange tag = true from hallow),
      ← String.toList_append, ← String.toList_append, hstrip, hstrip]
    rfl
  · have hvalues : (p.values.map fun v => v ++ a.suffix tag).map (fun v =>
        (a.abroad zone).reading.strip tag v.toList) =
        p.values.map fun v => v ++ a.foreignSuffix zone tag := by
      rw [List.map_map]
      exact List.map_congr_left fun v _ => hstrip v
    rw [Predicate.written_of_ne_between _ p hop, Predicate.followedBy, ← hvalues]
    unfold Reading.predicate
    split
    · next value hop' hvalue =>
      rcases List.map_eq_singleton_iff.mp hvalue with ⟨v, hv, rfl⟩
      have hnone := (read?_eq_none_iff _).mpr
        (a.not_isInterval_of_portable hp v (hv ▸ List.mem_singleton_self v))
      simp only [hnone, ite_self]
    · rfl

/-- The suffix that comes behind a value that was read abroad. -/
theorem foreignSuffix_append_eq_iff :
    a.foreignSuffix zone tag ++ (a.abroad zone).suffix tag = a.suffix tag ↔
      a.zone.suffix = zone.suffix ∨ a.schema.isTimestamp tag = false := by
  rw [foreignSuffix, suffix_abroad, suffix]
  by_cases hzone : a.zone.suffix = zone.suffix
  · rw [if_pos hzone, String.empty_append]
    exact iff_of_true (by rw [hzone]) (Or.inl hzone)
  · rw [if_neg hzone]
    cases hts : a.schema.isTimestamp tag with
    | false => exact iff_of_true rfl (Or.inr rfl)
    | true =>
      refine iff_of_false (fun h => ?_) (by simp [hzone])
      rw [← String.toList_inj, String.toList_append] at h
      exact zone.suffix_ne_nil (List.append_right_eq_self.mp h)

/-- What a filter is read as in another zone. -/
def readAbroad (filter : Filter) : Filter :=
  (a.writtenPart filter).mapValues fun tag ps =>
    ps.map (Predicate.followedBy (a.foreignSuffix zone tag))

section Clause

variable (filter : Filter) (hfilter : ∀ e ∈ filter.entries,
  e.1 ≠ "" ∧ ∀ p ∈ e.2, p.isUnset = false → a.schema.Portable e.1 p)

include hfilter

theorem portable_writtenPart (e : String × List Predicate)
    (he : e ∈ (a.writtenPart filter).entries) :
    e.1 ≠ "" ∧ ∀ p ∈ e.2, p.isUnset = false ∧ a.schema.Portable e.1 p := by
  rcases a.mem_writtenPart filter e he with ⟨ps, hps, _, _, hall⟩
  rcases hfilter _ hps with ⟨htag, hportable⟩
  exact ⟨htag, fun p hp => ⟨(hall p hp).2, hportable p (hall p hp).1 (hall p hp).2⟩⟩

theorem portable_ungrouped (c : String × Predicate) (hc : c ∈ (a.writtenPart filter).ungrouped) :
    c.1 ≠ "" ∧ c.2.isUnset = false ∧ a.schema.Portable c.1 c.2 := by
  rcases (mem_ungrouped _ c).mp hc with ⟨ps, hps, hmem⟩
  rcases a.portable_writtenPart filter hfilter _ hps with ⟨htag, hall⟩
  exact ⟨htag, hall c.2 hmem⟩

/-- What the filter of an address is read as in another zone. -/
theorem filter_abroad (columns : List String) (sort : List SortKey) (address : List Char)
    (hbase : PlainBase a.base.toList) (h : a.address? filter columns sort = .ok address) :
    ((a.abroad zone).reading.query address).filter = a.readAbroad zone filter := by
  have hportable := a.portable_writtenPart filter hfilter
  rw [a.filter_written_of _ filter columns sort address hbase (fun e he => (hportable e he).1) h]
  exact ext (List.map_congr_left fun e he => congrArg (Prod.mk e.1) (List.map_congr_left
    fun p hp => a.ofWritten_abroad zone ((hportable e he).2 p hp).2))

-- Nothing is left out a second time.
theorem writtenPart_abroad :
    (a.abroad zone).writtenPart (a.readAbroad zone filter) = a.readAbroad zone filter := by
  refine (a.abroad zone).writtenPart_eq_self _ fun x hx => ?_
  rcases List.mem_map.mp hx with ⟨e, he, rfl⟩
  rcases a.mem_writtenPart filter e he with ⟨_, _, hexcluded, hne, _⟩
  refine ⟨hexcluded, fun h => hne (List.map_eq_nil_iff.mp h), fun q hq => ?_⟩
  rcases List.mem_map.mp hq with ⟨p, hp, rfl⟩
  exact ((a.portable_writtenPart filter hfilter e he).2 p hp).1

/-- How a filter that was read abroad is written there: every value of a point in
    time has both suffixes. -/
theorem clauseText_abroad : (a.abroad zone).clauseText (a.readAbroad zone filter) =
    joinWith ';' ((a.writtenPart filter).ungrouped.map fun c =>
      c.2.item (a.foreignSuffix zone c.1 ++ (a.abroad zone).suffix c.1) c.1) := by
  rw [clauseText, a.writtenPart_abroad zone filter hfilter, readAbroad, ungrouped_mapValues,
    List.map_map]
  refine congrArg _ (List.map_congr_left fun c hc => ?_)
  exact Predicate.item_followedBy _ _ (a.portable_ungrouped filter hfilter c hc).2.2.arity

theorem clause?_abroad : (a.abroad zone).clause? (a.readAbroad zone filter) =
    .ok ((a.abroad zone).clauseText (a.readAbroad zone filter)) := by
  rw [clause?_eq_ok_iff, a.writtenPart_abroad zone filter hfilter, readAbroad, ungrouped_mapValues]
  refine ⟨rfl, fun c hc => ?_⟩
  rcases List.mem_map.mp hc with ⟨d, hd, rfl⟩
  rw [Predicate.followedBy_hasValidArity]
  exact (a.portable_ungrouped filter hfilter d hd).2.2.arity

/-- When that is the text that was written first. -/
theorem clauseText_abroad_eq_iff :
    (a.abroad zone).clauseText (a.readAbroad zone filter) = a.clauseText filter ↔
      a.zone.suffix = zone.suffix ∨
        ∀ c ∈ a.conditions filter, a.schema.isTimestamp c.1 = true → c.2.values = [] := by
  have hportable := a.portable_ungrouped filter hfilter
  have htag := fun c hc => (hportable c hc).1
  -- Items hold no semicolon, so the texts are equal when all items are.
  have hitems : (a.abroad zone).clauseText (a.readAbroad zone filter) = a.clauseText filter ↔
      ∀ c ∈ (a.writtenPart filter).ungrouped,
        c.2.item (a.foreignSuffix zone c.1 ++ (a.abroad zone).suffix c.1) c.1 =
          c.2.item (a.suffix c.1) c.1 := by
    rw [a.clauseText_abroad zone filter hfilter, clauseText, ← List.map_inj_left]
    refine ⟨fun h => ?_, congrArg (joinWith ';')⟩
    rw [← filledPieces_items (fun tag => a.foreignSuffix zone tag ++ (a.abroad zone).suffix tag) _
      htag, h, filledPieces_items a.suffix _ htag]
  have hitem : ∀ c ∈ (a.writtenPart filter).ungrouped,
      (c.2.item (a.foreignSuffix zone c.1 ++ (a.abroad zone).suffix c.1) c.1 =
          c.2.item (a.suffix c.1) c.1 ↔
        (a.zone.suffix = zone.suffix ∨ a.schema.isTimestamp c.1 = false) ∨ c.2.values = []) := by
    intro c hc
    rcases hportable c hc with ⟨htag, hset, hp⟩
    rw [Predicate.item_eq_iff _ _ htag hset hp.arity, foreignSuffix_append_eq_iff]
  rw [hitems, conditions_eq, forall₂_congr hitem]
  by_cases hzone : a.zone.suffix = zone.suffix
  · exact iff_of_true (fun _ _ => Or.inl (Or.inl hzone)) (Or.inl hzone)
  · simp only [hzone, false_or, ← Bool.not_eq_true, imp_iff_not_or]

end Clause

/-- A filter can be written, read in another zone and written there. What is read
    has the suffix of the first zone behind each point in time, unless the zones have
    the same suffix. So the clause is the same text exactly when they do, or no
    condition on a point in time has a value. -/
theorem clause_abroad_iff (a : Addressing) (zone : Zone) (filter : Filter) (columns : List String)
    (sort : List SortKey) (hbase : PlainBase a.base.toList)
    (hfilter : ∀ e ∈ filter.entries,
      e.1 ≠ "" ∧ ∀ p ∈ e.2, p.isUnset = false → a.schema.Portable e.1 p)
    (hne : columns ≠ []) :
    ∃ address clause again, a.address? filter columns sort = .ok address ∧
      a.clause? filter = .ok clause ∧
      ((a.abroad zone).reading.query address).filter = a.readAbroad zone filter ∧
      (a.abroad zone).clause? ((a.abroad zone).reading.query address).filter = .ok again ∧
      (again = clause ↔ a.zone.suffix = zone.suffix ∨
        ∀ c ∈ a.conditions filter, a.schema.isTimestamp c.1 = true → c.2.values = []) := by
  have harity := fun c hc => (a.portable_ungrouped filter hfilter c hc).2.2.arity
  have hok := (a.address?_eq_ok_iff filter columns sort _).mpr ⟨hne, harity, rfl⟩
  have hread := a.filter_abroad zone filter hfilter columns sort _ hbase hok
  refine ⟨_, _, (a.abroad zone).clauseText (a.readAbroad zone filter), hok,
    (a.clause?_eq_ok_iff filter _).mpr ⟨rfl, harity⟩, hread, ?_,
    a.clauseText_abroad_eq_iff zone filter hfilter⟩
  rw [hread]
  exact a.clause?_abroad zone filter hfilter

/-- Without a value on a point in time a clause is the same in all zones. -/
theorem clause_abroad_without_time :
    let schema : Schema := .ofList [("m", { type := .timestamp }), ("n", { type := .integer })]
    let a : Addressing := ⟨"h/", schema, ⟨-28800, by decide⟩, {}, none⟩
    let filter : Filter := .ofList [("m", [⟨.absent, []⟩]), ("n", [.between "1" "2"])]
    ∃ address clause, a.address? filter ["m"] [] = .ok address ∧ a.clause? filter = .ok clause ∧
      (a.abroad .utc).clause? ((a.abroad .utc).reading.query address).filter = .ok clause := by
  intro schema a filter
  have hbase : PlainBase a.base.toList :=
    ⟨Or.inr ⟨['h'], by decide +revert⟩, by decide +revert, by decide +revert⟩
  have hfilter : ∀ e ∈ filter.entries,
      e.1 ≠ "" ∧ ∀ p ∈ e.2, p.isUnset = false → a.schema.Portable e.1 p := by
    intro e he
    have hentries : filter.entries = [("m", [⟨.absent, []⟩]), ("n", [.between "1" "2"])] := rfl
    rw [hentries, List.mem_cons, List.mem_singleton] at he
    rcases he with rfl | rfl
    · refine ⟨by decide, fun p hp _ => ?_⟩
      rw [List.mem_singleton.mp hp]
      exact ⟨rfl, fun v hv => absurd hv List.not_mem_nil, fun h => Operator.noConfusion h⟩
    · refine ⟨by decide, fun p hp _ => ?_⟩
      rw [List.mem_singleton.mp hp]
      exact ⟨rfl, by simp [Predicate.between], fun _ => ⟨rfl, by simp [Predicate.between]⟩⟩
  rcases clause_abroad_iff a .utc filter ["m"] [] hbase hfilter (by decide) with
    ⟨address, clause, again, hok, hclause, _, hagain, hsame⟩
  rw [hsame.mpr (Or.inr (by decide))] at hagain
  exact ⟨address, clause, hok, hclause, hagain⟩

/-- A moment that was written eight hours west of Greenwich is written with both
    suffixes there. -/
theorem clause_abroad_twice :
    let schema : Schema := .ofList [("m", { type := .timestamp })]
    let a : Addressing := ⟨"h/", schema, ⟨-28800, by decide⟩, {}, none⟩
    let filter : Filter := .ofList [("m", [⟨.greaterEq, ["2021-06-01"]⟩])]
    PlainBase a.base.toList ∧
      (∀ e ∈ filter.entries, e.1 ≠ "" ∧ ∀ p ∈ e.2, a.schema.Portable e.1 p) ∧
      ∃ address clause again, a.address? filter ["m"] [] = .ok address ∧
        a.clause? filter = .ok clause ∧
        (a.abroad .utc).clause? ((a.abroad .utc).reading.query address).filter = .ok again ∧
        clause = "m:geq:2021-06-01-08%3A00".toList ∧
        again = "m:geq:2021-06-01-08%3A00%2B00%3A00".toList ∧ again ≠ clause := by
  intro schema a filter
  refine ⟨⟨Or.inr ⟨['h'], by decide +revert⟩, by decide +revert, by decide +revert⟩, ?_,
    _, "m:geq:2021-06-01-08%3A00".toList, "m:geq:2021-06-01-08%3A00%2B00%3A00".toList, rfl,
    by decide +kernel, by decide +kernel, rfl, rfl, by decide⟩
  intro e he
  have hentries : filter.entries = [("m", [⟨.greaterEq, ["2021-06-01"]⟩])] := rfl
  rw [hentries, List.mem_singleton] at he
  subst he
  refine ⟨by decide, fun p hp => ?_⟩
  rw [List.mem_singleton.mp hp]
  exact ⟨rfl, by simp, fun h => Operator.noConfusion h⟩

end Addressing

end TagCatalog
