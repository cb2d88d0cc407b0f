import TagCatalog.Proofs.Data.OrderedMap
import TagCatalog.Proofs.Json.Record
import TagCatalog.Query.Document

/-!
# Reading Back Queries

A query is read from its document as it was.

Writer and reader go down the same tree, one record after another, and at each record they only
meet in the names of its fields. So there is one lemma for each kind of node, and the lemma of
a node takes those of its children as they are. What is left out by the writer is filled in by
the reader: a condition has no values where none are written, and `null` stands for an option
that is not given.

## Theorems

* `Operator.ofKey?_key`, `Direction.ofKey?_key`, `Versions.ofKey?_key`, `RangeMode.ofKey?_key`:
  Names of choices.
* `Predicate.ofDocument?_value`, `Filter.ofDocument?_value`, `SortKey.ofDocument?_value`,
  `Limit.ofDocument?_value`, `Options.ofDocument?_value`, `Query.ofDocument?_value`: Each part of
  a query is read from its document.
* `Query.isWhole_value`: All numbers in the document of a query are whole.
* `Query.survives_text`: A query is read from its text as it was.
-/

namespace TagCatalog

open Json Document
open Value hiding parse?

/-! ## Names of choices -/

theorem Operator.ofKey?_key (op : Operator) : Operator.ofKey? op.key = some op := by
  cases op <;> rfl

theorem Direction.ofKey?_key (d : Direction) : Direction.ofKey? d.key = some d := by
  cases d <;> rfl

theorem Versions.ofKey?_key (v : Versions) : Versions.ofKey? v.key = some v := by
  cases v <;> rfl

theorem RangeMode.ofKey?_key (m : RangeMode) : RangeMode.ofKey? m.key = some m := by
  cases m <;> rfl

theorem PageSize.ofWord?_rows (n : PageSize) : PageSize.ofWord? n.rows = some n := dif_neg n.pos

/-! ## Conditions -/

/-- The fields of a condition, where no values are written or some are. -/
theorem Predicate.record?_value (p : Predicate) :
    p.value.document.record? [("op", .required), ("values", .defaulted)] =
      some [some (document (.text p.op.key)),
        if p.values.isEmpty then none else some (document (ofTexts p.values))] := by
  by_cases h : p.values.isEmpty
  · rw [Predicate.value, if_pos h, if_pos h]
    exact record?_document [some (.text p.op.key), none] (by simp)
      (by simp [HasField])
  · rw [Predicate.value, if_neg h, if_neg h]
    exact record?_document [some (.text p.op.key), some (ofTexts p.values)] (by simp)
      (by simp [HasField])

theorem Predicate.ofDocument?_value (p : Predicate) :
    Predicate.ofDocument? p.value.document = some p := by
  have hop : (document (.text p.op.key)).choice?.bind Operator.ofKey? = some p.op :=
    p.op.ofKey?_key
  have hvalues : field? (list? text?) []
      (if p.values.isEmpty then none else some (document (ofTexts p.values))) = some p.values := by
    by_cases h : p.values.isEmpty
    · rw [if_pos h, List.isEmpty_iff.mp h, field?]
    · rw [if_neg h]
      exact texts?_document p.values
  rw [Predicate.ofDocument?, p.record?_value]
  simp only [Option.bind_eq_bind, Option.bind_some, hop, hvalues]

/-! ## Filters and sort keys -/

theorem Filter.ofDocument?_value (filter : Filter) :
    Filter.ofDocument? (Filter.value filter).document = some filter := by
  have hread : (Filter.value filter).document.members? (list? Predicate.ofDocument?) =
      some filter.entries :=
    members?_document (fun ps : List Predicate => .array (ps.map Predicate.value)) fun _ _ =>
      list?_document fun p _ => Predicate.ofDocument?_value p
  rw [Filter.ofDocument?, hread, Option.map_some, OrderedMap.ofList_entries]

theorem SortKey.ofDocument?_value (key : SortKey) :
    SortKey.ofDocument? key.value.document = some key := by
  have hread : key.value.document.record? [("name", .required), ("direction", .required)] =
      some [some (document (.text key.name)), some (document (.text key.direction.key))] :=
    record?_document [some (.text key.name), some (.text key.direction.key)] (by simp)
      (by simp [HasField])
  have hname : (document (.text key.name)).text? = some key.name := rfl
  have hdirection : (document (.text key.direction.key)).choice?.bind Direction.ofKey? =
      some key.direction := key.direction.ofKey?_key
  rw [SortKey.ofDocument?, hread]
  simp only [Option.bind_eq_bind, Option.bind_some, hname, hdirection]

/-! ## Options -/

theorem Limit.ofDocument?_value (limit : Limit) :
    Limit.ofDocument? limit.value.document = some limit := by
  cases limit with
  | unlimited => rfl
  | rows n =>
    rw [Limit.value, document_object]
    show ((word? (document (ofWord n.rows))).bind PageSize.ofWord?).map Limit.rows = _
    rw [word?_ofWord, Option.bind_some, n.ofWord?_rows, Option.map_some]

/-- What may be missing is written as `null` where it is, so `null` must not be read as a value. -/
theorem optional?_getD_null {α : Type} {read : Document → Option α} {write : α → Value}
    (hnull : read .null = none) (hread : ∀ a, read (write a).document = some a) (o : Option α) :
    optional? read ((o.map write).getD .null).document = some o := by
  cases o with
  | none => rfl
  | some a =>
    have hne : (write a).document ≠ .null := by
      intro h
      have hwritten := hread a
      rw [h, hnull] at hwritten
      cases hwritten
    show optional? read (write a).document = some (some a)
    rw [optional?]
    · rw [hread, Option.map_some]
    · exact hne

theorem Options.ofDocument?_value (o : Options) :
    Options.ofDocument? o.value.document = some o := by
  have hread : o.value.document.record?
      [("versions", .required), ("limit", .nullable), ("offset", .nullable), ("range", .nullable)] =
      some [some (document (.text o.versions.key)),
        some (document ((o.limit.map Limit.value).getD .null)),
        some (document ((o.offset.map ofWord).getD .null)),
        some (document ((o.range.map fun m => .text m.key).getD .null))] :=
    record?_document [some (.text o.versions.key),
      some ((o.limit.map Limit.value).getD .null), some ((o.offset.map ofWord).getD .null),
      some ((o.range.map fun m => .text m.key).getD .null)] (by simp) (by simp [HasField])
  have hversions : (document (.text o.versions.key)).choice?.bind Versions.ofKey? =
      some o.versions := o.versions.ofKey?_key
  have hlimit := optional?_getD_null rfl Limit.ofDocument?_value o.limit
  have hoffset := optional?_getD_null rfl word?_ofWord o.offset
  have hrange : optional? (fun d => d.choice?.bind RangeMode.ofKey?)
      (document ((o.range.map fun m => .text m.key).getD .null)) = some o.range :=
    optional?_getD_null rfl RangeMode.ofKey?_key o.range
  rw [Options.ofDocument?, hread]
  simp only [Option.bind_eq_bind, Option.bind_some, field?, hversions, hlimit, hoffset, hrange]

/-! ## Queries -/

theorem Query.ofDocument?_value (q : Query) : Query.ofDocument? q.value.document = some q := by
  have hread : q.value.document.record?
      [("base", .required), ("filter", .required), ("columns", .required), ("sort", .required),
        ("options", .required)] =
      some [some (document (.text q.base)), some (Filter.value q.filter).document,
        some (document (ofTexts q.columns)), some (document (.array (q.sort.map SortKey.value))),
        some q.options.value.document] :=
    record?_document [some (.text q.base), some (Filter.value q.filter),
      some (ofTexts q.columns), some (.array (q.sort.map SortKey.value)), some q.options.value]
      (by simp) (by simp [HasField])
  have hbase : (document (.text q.base)).text? = some q.base := rfl
  have hsort : (document (.array (q.sort.map SortKey.value))).list? SortKey.ofDocument? =
      some q.sort := list?_document fun key _ => key.ofDocument?_value
  rw [Query.ofDocument?, hread]
  simp only [Option.bind_eq_bind, Option.bind_some, hbase, Filter.ofDocument?_value,
    texts?_document, hsort, Options.ofDocument?_value]

/-! ## Numbers in queries -/

theorem isWhole_array {α : Type} {write : α → Value} (h : ∀ a, (write a).IsWhole)
    (xs : List α) : IsWhole (.array (xs.map write)) := by
  refine .array _ fun v hv => ?_
  rcases List.mem_map.mp hv with ⟨a, _, rfl⟩
  exact h a

theorem isWhole_ofTexts (texts : List String) : (ofTexts texts).IsWhole :=
  isWhole_array .text texts

theorem isWhole_ofWord (n : UInt64) : (ofWord n).IsWhole := .integer n.toNat

theorem Predicate.isWhole_value (p : Predicate) : p.value.IsWhole := by
  by_cases h : p.values.isEmpty
  · rw [Predicate.value, if_pos h]
    exact .object _ (by simp [IsWhole.text])
  · rw [Predicate.value, if_neg h]
    exact .object _ (by simp [IsWhole.text, isWhole_ofTexts])

theorem Filter.isWhole_value (filter : Filter) : (Filter.value filter).IsWhole := by
  refine .object _ fun m hm => ?_
  rcases List.mem_map.mp hm with ⟨⟨tag, ps⟩, _, rfl⟩
  exact isWhole_array Predicate.isWhole_value ps

theorem SortKey.isWhole_value (key : SortKey) : key.value.IsWhole :=
  .object _ (by simp [IsWhole.text])

theorem Limit.isWhole_value (limit : Limit) : limit.value.IsWhole := by
  cases limit with
  | unlimited => exact .text _
  | rows n => exact .object _ (by simp [isWhole_ofWord])

theorem isWhole_getD_null {α : Type} {write : α → Value} (h : ∀ a, (write a).IsWhole)
    (o : Option α) : ((o.map write).getD .null).IsWhole := by
  cases o with
  | none => exact .null
  | some a => exact h a

theorem Options.isWhole_value (o : Options) : o.value.IsWhole := by
  have hlimit := isWhole_getD_null Limit.isWhole_value o.limit
  have hoffset := isWhole_getD_null isWhole_ofWord o.offset
  have hrange := isWhole_getD_null (fun m : RangeMode => .text m.key) o.range
  exact .object _ (by simp [IsWhole.text, hlimit, hoffset, hrange])

/-- A query has no numbers but words. -/
theorem Query.isWhole_value (q : Query) : q.value.IsWhole := by
  have hsort := isWhole_array SortKey.isWhole_value q.sort
  exact .object _ (by simp [IsWhole.text, isWhole_ofTexts, Filter.isWhole_value,
    Options.isWhole_value, hsort])

/-! ## Queries as text -/

theorem Query.parse?_compact (q : Query) :
    (parse? q.value.compact).bind Query.ofDocument? = some q := by
  rw [Value.parse?_compact q.isWhole_value, Option.bind_some, q.ofDocument?_value]

theorem Query.parse?_pretty (q : Query) :
    (parse? q.value.pretty.toList).bind Query.ofDocument? = some q := by
  rw [Value.parse?_pretty q.isWhole_value, Option.bind_some, q.ofDocument?_value]

/-- A query is read from its text as it was, with its conditions in their order. The values of a
    condition are left out where there are none, and none are read then. Texts are different
    where only the limits are, be it that there is none, that it is lifted, or that it is a
    number of rows. -/
theorem Query.survives_text (q : Query) :
    (∀ text ∈ [q.value.compact, q.value.pretty.toList],
      (parse? text).bind Query.ofDocument? = some q) ∧
    (∀ op : Operator,
      parse? (Predicate.value ⟨op, []⟩).compact = some (.object [(some "op", .text op.key)]) ∧
      Predicate.ofDocument? (.object [(some "op", .text op.key)]) = some ⟨op, []⟩) ∧
    Function.Injective fun limit : Option Limit =>
      ({ q with options := { q.options with limit } } : Query).value.compact := by
  refine ⟨fun text htext => ?_, fun op => ?_, fun limit limit' h => ?_⟩
  · rcases List.mem_pair.mp htext with rfl | rfl
    · exact q.parse?_compact
    · exact q.parse?_pretty
  · exact ⟨Value.parse?_compact (Predicate.isWhole_value ⟨op, []⟩),
      Predicate.ofDocument?_value ⟨op, []⟩⟩
  · -- What is written alike is read alike.
    have hread := congrArg (fun text => (parse? text).bind Query.ofDocument?) h
    simp only [Query.parse?_compact] at hread
    exact congrArg (fun q => q.options.limit) (Option.some.inj hread)

end TagCatalog
