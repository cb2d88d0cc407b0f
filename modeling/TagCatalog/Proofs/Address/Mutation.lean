import TagCatalog.Address.Mutation
import TagCatalog.Proofs.Address.Clause

/-!
# Addresses of Changes Are Unambiguous

Two changes in one catalog have the same address only if they are the same change.

Addresses of changes are written here and read by the catalog alone, so no reader
would show it if a text that someone typed could end the assignment early, or turn
one value into two. `readChange?` takes the part of the catalog and goes by the
marks only: the clause is what stands before the first opening parenthesis, the
assignment what stands between it and the first closing one, the tag what stands
before the first equals sign there, and the values are what stands between commas.
It gives back everything that was written, and the injectivity of addresses is
nothing but that.

It depends on the clause only in that it has no parenthesis. `SubjectClause` lists
the clauses there are, those of filters and those of numbers, and both are items
with a semicolon between each two. So what is known of items holds of either.

## Main definitions

* `SubjectClause`: A clause that changes are addressed by, and its conditions.
* `changePart`: What follows the root in the address of a change.
* `readAssignment`, `readChange?`: What a part says, by its marks.
* `Predicate.writtenCount`: How many values are written of a condition.
* `SaysCondition`: An item that says a condition, and nothing besides.
* `SaysChange`: A part that says a change, and nothing besides.

## Theorems

* `unescape_splitOn`: Written values are told apart.
* `SubjectClause.eq_joinWith`: The one form of all clauses.
* `saysCondition_item`, `SubjectClause.says`: What items and clauses say.
* `readAssignment_assignment`, `readChange?_changePart`: What was written is read.
* `change_address_unambiguous`: An address of a change is that of one change.
-/

namespace TagCatalog

open Text Percent

/-- Values that were written with a comma between each two are told apart. -/
theorem unescape_splitOn (values : List String) (hne : values ≠ []) :
    (splitOn ',' (joinWith ',' (values.map escape))).map unescape = values := by
  rw [splitOn_joinWith ',' _ fun h => hne (List.map_eq_nil_iff.mp h), List.map_map]
  · exact List.map_id'' unescape_escape values
  · exact List.forall_mem_map.mpr fun _ _ => not_mem_encode holdsDigits_name (by decide)

/-- How many values are written of a condition. An interval is one. -/
def Predicate.writtenCount (p : Predicate) : Nat :=
  if p.op = .between then 1 else p.values.length

theorem Predicate.length_written (suffix : String) (p : Predicate) (hp : p.hasValidArity = true) :
    (p.written suffix).values.length = p.writtenCount := by
  unfold writtenCount
  by_cases hop : p.op = .between
  · rcases eq_between p hop hp with ⟨low, high, rfl⟩
    rfl
  · rw [if_neg hop, written_of_ne_between suffix p hop, List.length_map]

/-- An item says a condition on a tag: the tag is what stands before the first
    mark, and there is a comma between each two of the values that are written. -/
structure SaysCondition (c : String × Predicate) (item : List Char) : Prop where
  tag : unescape (item.takeWhile isPlain) = c.1
  values : item.count ',' = c.2.writtenCount - 1

theorem saysCondition_item (suffix tag : String) (p : Predicate) (hset : p.isUnset = false)
    (hp : p.hasValidArity = true) : SaysCondition (tag, p) (p.item suffix tag) := by
  have hname : ∀ c ∈ escape tag, isPlain c = true := isPlain_of_mem_escape tag
  have htag : (p.item suffix tag).takeWhile isPlain = escape tag := by
    rw [Predicate.item_eq_written]
    rcases Predicate.written_cases suffix p hset hp with htagged | hop
    · simp only [htagged, Predicate.text_tagged, List.takeWhile_eq_self_iff.mpr hname]
    · rcases mark_eq_cons _ hop with ⟨m, ms, hm, hplain⟩
      rw [hm, List.append_assoc, List.cons_append, takeWhile_append_cons isPlain _ _ m hname hplain]
  have hmark : ∀ op : Operator, ',' ∉ op.mark := fun op =>
    not_mem_mark op ',' (by decide) (by decide)
  have hvalues : ∀ s, ',' ∉ escape s := fun _ => not_mem_encode holdsDigits_name (by decide)
  constructor
  · rw [htag, unescape_escape]
  · rw [Predicate.item_eq_written, List.count_append, List.count_append,
      List.count_eq_zero.mpr (hmark _), List.count_eq_zero.mpr (hvalues tag),
      count_joinWith ',' _ (List.forall_mem_map.mpr fun v _ => hvalues v), List.length_map,
      Predicate.length_written suffix p hp, Nat.zero_add]

/-- The clauses that changes are addressed by, with the conditions that they are
    written for. -/
inductive SubjectClause : List (String × Predicate) → List Char → Prop
  /-- The subjects that meet a filter. -/
  | filtered (a : Addressing) (filter : Filter) (clause : List Char)
    (h : a.clause? filter = .ok clause) : SubjectClause (a.conditions filter) clause
  /-- The subjects with some numbers. -/
  | numbered (ids : List String) (h : ids ≠ []) :
    SubjectClause [("id", ⟨.eq, ids⟩)] (idClause ids)

theorem idClause_eq_item (ids : List String) :
    idClause ids = (⟨.eq, ids⟩ : Predicate).item "" "id" := by
  have hvalues : ids.map (fun v => v ++ "") = ids :=
    List.map_id'' (fun v => String.append_empty) ids
  rw [Predicate.item_eq_written, Predicate.written_of_ne_between _ _ Operator.noConfusion, hvalues]
  rfl

section Clauses

variable {conditions : List (String × Predicate)} {clause : List Char}

/-- Every clause is the items of its conditions with a semicolon between each two,
    and its conditions can be written. -/
theorem SubjectClause.eq_joinWith (h : SubjectClause conditions clause) :
    (∃ suffix : String → String,
      clause = joinWith ';' (conditions.map fun c => c.2.item (suffix c.1) c.1)) ∧
      ∀ c ∈ conditions, c.2.isUnset = false ∧ c.2.hasValidArity = true := by
  cases h with
  | filtered a filter clause h =>
    rcases (a.clause?_eq_ok_iff filter clause).mp h with ⟨htext, harity⟩
    rw [← a.conditions_eq filter] at harity
    refine ⟨⟨a.suffix, ?_⟩, fun c hc => ⟨a.isUnset_of_mem_conditions filter c hc, harity c hc⟩⟩
    rw [htext, Addressing.clauseText, a.conditions_eq filter]
  | numbered ids h =>
    refine ⟨⟨fun _ => "", ?_⟩, fun c hc => ?_⟩
    · rw [List.map_singleton, joinWith_singleton, idClause_eq_item]
    · rw [List.mem_singleton] at hc
      subst hc
      refine ⟨rfl, ?_⟩
      simpa [Predicate.hasValidArity, Operator.accepts, Operator.arity, Arity.accepts,
        List.length_pos_iff] using h

/-- No clause has a parenthesis. -/
theorem SubjectClause.not_mem (h : SubjectClause conditions clause) :
    '(' ∉ clause ∧ ')' ∉ clause := by
  rcases h.eq_joinWith.1 with ⟨suffix, rfl⟩
  exact ⟨not_mem_items suffix _ '(' (by decide) (by decide),
    not_mem_items suffix _ ')' (by decide) (by decide)⟩

/-- A clause says its conditions one by one, or nothing if there are none. -/
theorem SubjectClause.says (h : SubjectClause conditions clause) :
    conditions = [] ∧ clause = [] ∨ List.Forall₂ SaysCondition conditions (splitOn ';' clause) := by
  rcases h.eq_joinWith with ⟨⟨suffix, rfl⟩, hwritable⟩
  -- No items and one empty item have the same text, so the empty list is a case of its own.
  by_cases hnone : conditions = []
  · exact Or.inl ⟨hnone, by rw [hnone]; rfl⟩
  · refine Or.inr ?_
    rw [splitOn_joinWith ';' _ (fun h => hnone (List.map_eq_nil_iff.mp h))
      (semicolon_not_mem_item suffix conditions), List.forall₂_map_right_iff, List.forall₂_same]
    exact fun c hc => saysCondition_item _ _ _ (hwritable c hc).1 (hwritable c hc).2

end Clauses

/-- What follows the root of the catalog in the address of a change. -/
def changePart (clause : List Char) (tag : String) (values : List String) : List Char :=
  clause ++ '(' :: assignment tag values ++ [')']

theorem toList_mutationAddress (home : String) (clause : List Char) (tag : String)
    (values : List String) :
    (mutationAddress home (String.ofList clause) tag values).toList =
      home.toList ++ "/tags/".toList ++ changePart clause tag values := by
  simp only [mutationAddress, changePart, String.toList_append, String.toList_ofList,
    List.append_assoc]

/-- What an assignment says: the tag before the first equals sign, and the values
    behind it with a comma between each two. -/
def readAssignment (cs : List Char) : String × List String :=
  match cut? '=' cs with
  | none => (unescape cs, [])
  | some (name, values) => (unescape name, (splitOn ',' values).map unescape)

/-- What the address of a change says behind the root: the clause before the first
    opening parenthesis, and the assignment before the first closing one, which has
    to be the end. -/
def readChange? (part : List Char) : Option (List Char × String × List String) :=
  match cut? '(' part with
  | none => none
  | some (clause, rest) =>
    match cut? ')' rest with
    | some (assigned, []) => some (clause, readAssignment assigned)
    | _ => none

/-- No assignment has a mark other than the equals sign and the comma. -/
theorem not_mem_assignment (tag : String) (values : List String) (c : Char)
    (hc : Percent.keptInName c = false ∧ c ≠ '%') (hjoint : c ≠ '=' ∧ c ≠ ',') :
    c ∉ assignment tag values := by
  unfold assignment
  split
  · exact not_mem_encode holdsDigits_name hc
  · rw [List.mem_append, List.mem_cons, not_or, not_or]
    exact ⟨not_mem_encode holdsDigits_name hc, hjoint.1, not_mem_joinWith ',' _ c hjoint.2
      (List.forall_mem_map.mpr fun _ _ => not_mem_encode holdsDigits_name hc)⟩

theorem readAssignment_assignment (tag : String) (values : List String) :
    readAssignment (assignment tag values) = (tag, values) := by
  have hname : '=' ∉ escape tag := not_mem_encode holdsDigits_name (by decide)
  unfold readAssignment assignment
  by_cases hvalues : values = []
  · -- Without an equals sign all values are meant, which is not the empty value.
    rw [if_pos (List.isEmpty_iff.mpr hvalues), (cut?_eq_none_iff '=' _).mpr hname, hvalues]
    simp only [unescape_escape]
  · rw [if_neg fun h => hvalues (List.isEmpty_iff.mp h), cut?_append '=' _ _ hname]
    simp only [unescape_escape, unescape_splitOn values hvalues]

theorem readChange?_changePart (clause : List Char) (tag : String) (values : List String)
    (hclause : '(' ∉ clause) :
    readChange? (changePart clause tag values) = some (clause, tag, values) := by
  have hopen := cut?_append '(' clause (assignment tag values ++ [')']) hclause
  have hclose := cut?_append ')' (assignment tag values) []
    (not_mem_assignment tag values ')' (by decide) (by decide))
  have hpart : changePart clause tag values =
      clause ++ '(' :: (assignment tag values ++ [')']) := by
    rw [changePart, List.append_assoc, List.cons_append]
  unfold readChange?
  rw [hpart, hopen]
  simp only [hclose, readAssignment_assignment]

/-- A part says a change: its only parentheses are those around the assignment, the
    clause is what stands before them, and going by the marks gives back the tag and
    the values. -/
structure SaysChange (part clause : List Char) (tag : String) (values : List String) : Prop where
  opened : part.count '(' = 1
  closed : part.count ')' = 1
  last : part.getLast? = some ')'
  first : part.takeWhile (· ≠ '(') = clause
  read : readChange? part = some (clause, tag, values)

theorem saysChange_changePart (clause : List Char) (tag : String) (values : List String)
    (hclause : '(' ∉ clause ∧ ')' ∉ clause) :
    SaysChange (changePart clause tag values) clause tag values := by
  have hassigned : '(' ∉ assignment tag values ∧ ')' ∉ assignment tag values :=
    ⟨not_mem_assignment tag values '(' (by decide) (by decide),
      not_mem_assignment tag values ')' (by decide) (by decide)⟩
  have hpart : changePart clause tag values =
      clause ++ '(' :: (assignment tag values ++ [')']) := by
    rw [changePart, List.append_assoc, List.cons_append]
  refine ⟨?_, ?_, ?_, ?_, readChange?_changePart clause tag values hclause.1⟩
  · rw [hpart, List.count_append, List.count_cons_self, List.count_append,
      List.count_eq_zero.mpr hclause.1, List.count_eq_zero.mpr hassigned.1]
    rfl
  · rw [changePart, List.count_append, List.count_append,
      List.count_cons_of_ne (by decide), List.count_eq_zero.mpr hclause.2,
      List.count_eq_zero.mpr hassigned.2]
    rfl
  · rw [changePart, List.getLast?_concat]
  · rw [hpart, takeWhile_append_cons _ _ _ '(' _ (by decide)]
    exact fun c hc => decide_eq_true (ne_of_mem_of_not_mem hc hclause.1)

/-- The address of a change says one clause, one tag and one list of values, whatever
    texts they are made of, so changes in one catalog with the same address are the
    same. So are numbers with the same clause. -/
theorem change_address_unambiguous (home : String) {conditions : List (String × Predicate)}
    {clause : List Char} (h : SubjectClause conditions clause) (tag : String)
    (values : List String) :
    (∃ part, (mutationAddress home (String.ofList clause) tag values).toList =
        home.toList ++ "/tags/".toList ++ part ∧ SaysChange part clause tag values) ∧
      (conditions = [] ∧ clause = [] ∨
        List.Forall₂ SaysCondition conditions (splitOn ';' clause)) ∧
      (∀ conditions' clause' tag' values', SubjectClause conditions' clause' →
        mutationAddress home (String.ofList clause) tag values =
          mutationAddress home (String.ofList clause') tag' values' →
        clause = clause' ∧ tag = tag' ∧ values = values') ∧
      ∀ ids ids' : List String, ids ≠ [] → ids' ≠ [] →
        idClause ids = idClause ids' → ids = ids' := by
  refine ⟨⟨_, toList_mutationAddress home clause tag values,
    saysChange_changePart clause tag values h.not_mem⟩, h.says, ?_, ?_⟩
  · intro conditions' clause' tag' values' h' heq
    -- The root is the same, so the parts are, and reading one part gives both changes.
    have hpart : changePart clause tag values = changePart clause' tag' values' := by
      rw [String.toList_inj.symm, toList_mutationAddress, toList_mutationAddress] at heq
      exact List.append_cancel_left heq
    have hread := readChange?_changePart clause tag values h.not_mem.1
    rw [hpart, readChange?_changePart clause' tag' values' h'.not_mem.1, Option.some.injEq,
      Prod.mk.injEq, Prod.mk.injEq] at hread
    exact ⟨hread.1.symm, hread.2.1.symm, hread.2.2.symm⟩
  · intro ids ids' hids hids' heq
    -- Without the name and its sign the clauses are the written numbers.
    have hjoined := List.append_cancel_left heq
    rw [← unescape_splitOn ids hids, hjoined, unescape_splitOn ids' hids']

/-- Marks inside a number and a tag, and no value against the empty one. -/
theorem change_address_unambiguous_marks :
    let clause := idClause ["1,2", "3)"]
    SubjectClause [("id", ⟨.eq, ["1,2", "3)"]⟩)] clause ∧
      mutationAddress "h" (String.ofList clause) "a(b=" [""] = "h/tags/id=1%2C2,3%29(a%28b%3D=)" ∧
      mutationAddress "h" (String.ofList clause) "a(b=" [""] ≠
        mutationAddress "h" (String.ofList clause) "a(b=" [] := by
  intro clause
  have hclause : SubjectClause [("id", ⟨.eq, ["1,2", "3)"]⟩)] clause := .numbered _ (by decide)
  refine ⟨hclause, by rfl, fun heq => ?_⟩
  have hsame := (change_address_unambiguous "h" hclause "a(b=" [""]).2.2.1 _ _ _ _ hclause heq
  exact absurd hsame.2.2 (by decide)

end TagCatalog
