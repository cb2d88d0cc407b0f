import TagCatalog.Proofs.Address.Faithful
import TagCatalog.Proofs.Data.Gather

/-!
# Reading Back a Clause

A filter is written as the items of its conditions with a semicolon between
each two, and read by gathering items by tag.

What is written is not the whole filter. The excluded tag is left out, and so
are the conditions that have not been chosen yet, and a tag can have none left
after that. `Addressing.writtenPart` is the filter without all these, and a
clause is written from it alone: `clause?_eq_ok_iff` says that writing succeeds
exactly when its conditions have the right numbers of values.

Reading the clause gives that part back with every condition in it reread,
which is `filter_clauseText`. So the question whether a filter comes back is the
question whether each of its written conditions does. It is stated for any schema
and zone, because an address may be read by someone else.

## Main definitions

* `Addressing.writtenPart`: The part of a filter that is written.

## Theorems

* `writtenPart_eq_self`: When the whole filter is written.
* `conditions_eq`: The conditions that are written are those of the written
  part.
* `conditions_eq_filter`: The same conditions, in the order of the filter.
* `clause?_eq_ok_iff`, `clause?_eq_error_iff`: When a clause can be written, and how
  writing it fails.
* `not_mem_items`, `not_mem_clauseText`: Characters that no items and no clause have.
* `filledPieces_joinWith`, `filledPieces_items`: Pieces that hold something are read
  back.
* `filter_eq_gather`: Reading a clause is gathering its items.
* `filter_clauseText`: A written clause is read.
-/

namespace TagCatalog

open Text OrderedMap

/-- The pieces between separators are the pieces that were joined, if each
    holds something and none has the separator. -/
theorem filledPieces_joinWith (sep : Char) (pieces : List (List Char))
    (hsep : ∀ p ∈ pieces, sep ∉ p) (hne : ∀ p ∈ pieces, p ≠ []) :
    filledPieces sep (joinWith sep pieces) = pieces := by
  unfold filledPieces
  by_cases h : pieces = []
  · rw [h, joinWith, List.intercalate_nil]
    rfl
  · rw [splitOn_joinWith sep pieces h hsep, List.filter_eq_self]
    intro p hp
    rw [List.isEmpty_eq_false_iff.mpr (hne p hp)]
    rfl

theorem mem_filledPieces (sep : Char) (cs p : List Char) (h : p ∈ filledPieces sep cs) :
    p ≠ [] := by
  have hp := (List.mem_filter.mp h).2
  rintro rfl
  exact Bool.noConfusion hp

/-- A character stands in no item if it is no part of names, marks or the joints
    between values and items. -/
theorem not_mem_items (suffix : String → String) (cs : List (String × Predicate)) (c : Char)
    (hname : Percent.keptInName c = false ∧ c ≠ '%') (hsign : c ∉ ":=!,;".toList) :
    c ∉ joinWith ';' (cs.map fun x => x.2.item (suffix x.1) x.1) := by
  have hitem : c ∉ ":=!,".toList := fun hc => hsign (List.mem_append_left [';'] hc)
  have hjoint : c ≠ ';' := fun hc => hsign (hc ▸ by decide)
  exact not_mem_joinWith ';' _ c hjoint
    (List.forall_mem_map.mpr fun x _ => not_mem_item _ _ _ c hname hitem)

/-- No item has the separator between items. -/
theorem semicolon_not_mem_item (suffix : String → String) (cs : List (String × Predicate)) :
    ∀ item ∈ cs.map fun c => c.2.item (suffix c.1) c.1, ';' ∉ item :=
  List.forall_mem_map.mpr fun _ _ => not_mem_item _ _ _ ';' (by decide) (by decide)

/-- Joined items are found again, if each has a tag. -/
theorem filledPieces_items (suffix : String → String) (cs : List (String × Predicate))
    (htag : ∀ c ∈ cs, c.1 ≠ "") :
    filledPieces ';' (joinWith ';' (cs.map fun c => c.2.item (suffix c.1) c.1)) =
      cs.map fun c => c.2.item (suffix c.1) c.1 := by
  rw [filledPieces_joinWith]
  · exact semicolon_not_mem_item suffix cs
  · intro item hitem
    rcases List.mem_map.mp hitem with ⟨c, hc, rfl⟩
    exact item_ne_nil _ _ _ (htag c hc)

/-- Reading a clause is gathering the conditions of its items by tag. -/
theorem filter_eq_gather (r : Reading) (clause : List Char) :
    r.filter clause = gather ((filledPieces ';' clause).map r.condition) := by
  unfold Reading.filter gather
  rw [List.foldl_map]
  rfl

namespace Addressing

variable (a : Addressing)

/-- The part of a filter that is written: without the excluded tag, without
    conditions that have not been chosen, and without tags that have no
    condition left. -/
def writtenPart (filter : Filter) : Filter where
  entries :=
    ((filter.entries.filter fun e => a.excluded ≠ some e.1).map fun e =>
      (e.1, e.2.filter fun p => !p.isUnset)).filter fun e => !e.2.isEmpty
  nodup := by
    refine List.Nodup.sublist (List.Sublist.map Prod.fst List.filter_sublist) ?_
    rw [List.map_map]
    exact List.Nodup.sublist (List.Sublist.map Prod.fst List.filter_sublist) filter.nodup

/-- An entry of the written part comes from the filter, holds something and
    has only conditions that have been chosen. -/
theorem mem_writtenPart (filter : Filter) (e : String × List Predicate)
    (h : e ∈ (a.writtenPart filter).entries) :
    ∃ ps, (e.1, ps) ∈ filter.entries ∧ a.excluded ≠ some e.1 ∧ e.2 ≠ [] ∧
      ∀ p ∈ e.2, p ∈ ps ∧ p.isUnset = false := by
  rcases List.mem_filter.mp h with ⟨hmap, hne⟩
  rcases List.mem_map.mp hmap with ⟨⟨tag, ps⟩, hmem, rfl⟩
  rcases List.mem_filter.mp hmem with ⟨hfilter, hexcluded⟩
  refine ⟨ps, hfilter, of_decide_eq_true hexcluded, ?_, fun p hp => ?_⟩
  · rw [Bool.not_eq_true', List.isEmpty_eq_false_iff] at hne
    exact hne
  · rcases List.mem_filter.mp hp with ⟨hps, hset⟩
    rw [Bool.not_eq_true'] at hset
    exact ⟨hps, hset⟩

/-- Nothing of a filter is left out when no tag of it is excluded, all conditions
    have been chosen and no tag is without conditions. -/
theorem writtenPart_eq_self (filter : Filter)
    (h : ∀ e ∈ filter.entries, a.excluded ≠ some e.1 ∧ e.2 ≠ [] ∧ ∀ p ∈ e.2, p.isUnset = false) :
    a.writtenPart filter = filter := by
  apply OrderedMap.ext
  unfold writtenPart
  simp only
  have htags : filter.entries.filter (fun e => decide (a.excluded ≠ some e.1)) =
      filter.entries := by
    rw [List.filter_eq_self]
    exact fun e he => decide_eq_true (h e he).1
  have hset : (filter.entries.map fun e => (e.1, e.2.filter fun p => !p.isUnset)) =
      filter.entries := by
    rw [map_eq_iff]
    intro e he
    have hall : e.2.filter (fun p => !p.isUnset) = e.2 := by
      rw [List.filter_eq_self]
      intro p hp
      rw [(h e he).2.2 p hp]
      rfl
    rw [hall]
  rw [htags, hset, List.filter_eq_self]
  intro e he
  rw [List.isEmpty_eq_false_iff.mpr (h e he).2.1]
  rfl

/-- The conditions that are written are those of the written part. -/
theorem conditions_eq (filter : Filter) :
    a.conditions filter = (a.writtenPart filter).ungrouped := by
  simp only [conditions, writtenPart, ungrouped]
  induction filter.entries with
  | nil => rfl
  | cons e es ih =>
    rcases e with ⟨tag, ps⟩
    rw [List.flatMap_cons, ih]
    by_cases hex : a.excluded = some tag
    · rw [List.filter_cons_of_neg (by simp [hex])]
      simp only [if_pos hex, List.nil_append]
    · rw [List.filter_cons_of_pos (by simp [hex])]
      -- A tag with no chosen condition adds nothing on either side.
      simp only [if_neg hex, List.map_cons]
      cases hps : ps.filter fun p => !p.isUnset with
      | nil => rfl
      | cons p r => rfl

/-- The conditions that are written are those on other tags that have been chosen,
    in the order of the filter. -/
theorem conditions_eq_filter (filter : Filter) :
    a.conditions filter =
      filter.ungrouped.filter fun c => a.excluded ≠ some c.1 && !c.2.isUnset := by
  unfold conditions ungrouped
  rw [List.filter_flatMap]
  refine List.flatMap_congr fun e _ => ?_
  rcases e with ⟨tag, ps⟩
  rw [List.filter_map]
  by_cases hex : a.excluded = some tag
  · simp [hex, Function.comp_def]
  · simp [hex, Function.comp_def]

theorem isUnset_of_mem_conditions (filter : Filter) (c : String × Predicate)
    (hc : c ∈ a.conditions filter) : c.2.isUnset = false := by
  rw [conditions_eq_filter, List.mem_filter, Bool.and_eq_true, Bool.not_eq_true'] at hc
  exact hc.2.2

theorem fault?_eq_none_iff (conditions : List (String × Predicate)) :
    fault? conditions = none ↔ ∀ c ∈ conditions, c.2.hasValidArity = true := by
  unfold fault?
  rw [List.findSome?_eq_none_iff]
  refine forall₂_congr fun c _ => ?_
  by_cases h : c.2.hasValidArity = true
  · simp only [h, if_true]
  · simp only [h, reduceCtorEq, if_false]

theorem fault?_append (cs cs' : List (String × Predicate)) :
    fault? (cs ++ cs') = (fault? cs).or (fault? cs') := List.findSome?_append

/-- The text of the conditions of a filter. -/
def clauseText (filter : Filter) : List Char :=
  joinWith ';' ((a.writtenPart filter).ungrouped.map fun c => c.2.item (a.suffix c.1) c.1)

/-- A clause can be written exactly when the written conditions have the right
    numbers of values. -/
theorem clause?_eq_ok_iff (filter : Filter) (clause : List Char) :
    a.clause? filter = .ok clause ↔
      clause = a.clauseText filter ∧
      ∀ c ∈ (a.writtenPart filter).ungrouped, c.2.hasValidArity = true := by
  unfold clause?
  rw [conditions_eq, ← fault?_eq_none_iff]
  cases h : fault? (a.writtenPart filter).ungrouped with
  | some e =>
    simp only [h, reduceCtorEq, and_false]
  | none =>
    simp only [h, Except.ok.injEq, and_true]
    exact eq_comm

theorem clause?_eq_error_iff (filter : Filter) (e : AddressError) :
    a.clause? filter = .error e ↔ fault? (a.conditions filter) = some e := by
  unfold clause?
  simp only
  cases fault? (a.conditions filter) with
  | none => exact iff_of_false (nomatch ·) (nomatch ·)
  | some e' => rw [Except.error.injEq, Option.some.injEq]

/-- A character stands in no clause if it is no part of names, marks or the
    joints between values and items. -/
theorem not_mem_clauseText (filter : Filter) (c : Char)
    (hname : Percent.keptInName c = false ∧ c ≠ '%') (hsign : c ∉ ":=!,;".toList) :
    c ∉ a.clauseText filter :=
  not_mem_items a.suffix _ c hname hsign

/-- What a written clause is read as, whatever schema and zone it is read with:
    each condition stands for itself. -/
theorem filter_clauseText (r : Reading) (filter : Filter)
    (htags : ∀ e ∈ (a.writtenPart filter).entries, e.1 ≠ "")
    (harity : ∀ c ∈ (a.writtenPart filter).ungrouped, c.2.hasValidArity = true) :
    r.filter (a.clauseText filter) =
      (a.writtenPart filter).mapValues fun tag ps => ps.map (r.ofWritten (a.suffix tag) tag) := by
  have htag : ∀ c ∈ (a.writtenPart filter).ungrouped, c.1 ≠ "" := by
    intro c hc
    rcases (mem_ungrouped _ c).mp hc with ⟨ps, hps, _⟩
    exact htags _ hps
  have hset : ∀ c ∈ (a.writtenPart filter).ungrouped, c.2.isUnset = false := by
    intro c hc
    rw [← conditions_eq] at hc
    exact a.isUnset_of_mem_conditions filter c hc
  rw [filter_eq_gather, clauseText, filledPieces_items a.suffix _ htag, List.map_map]
  -- Each item is read as its tag with the condition that it stands for.
  have hread : (a.writtenPart filter).ungrouped.map
      (r.condition ∘ fun c => c.2.item (a.suffix c.1) c.1) =
      (a.writtenPart filter).ungrouped.map fun c => (c.1, r.ofWritten (a.suffix c.1) c.1 c.2) :=
    List.map_congr_left fun c hc =>
      condition_item r (a.suffix c.1) c.1 c.2 (htag c hc) (hset c hc) (harity c hc)
  rw [hread, ← ungrouped_mapValues fun tag => r.ofWritten (a.suffix tag) tag, gather_ungrouped]
  intro e he
  rcases List.mem_map.mp he with ⟨x, hx, rfl⟩
  rcases a.mem_writtenPart filter x hx with ⟨_, _, _, hne, _⟩
  exact fun h => hne (List.map_eq_nil_iff.mp h)

end Addressing

end TagCatalog
