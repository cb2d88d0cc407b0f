import TagCatalog.Proofs.Address.Parts

/-!
# Writing and Reading an Address

What an address that was written is read as.

An address holds the written part of a filter, the columns, the sort keys and
the options. `query_written` reads it back whole: base, columns and sort keys
as they were, the options but for what a range leaves out, and the filter with
each of its conditions reread. It is stated for sort keys that may lack a name
if they sort upwards, because such keys come out of reading and have to
survive another round.

`query_address_iff` is the summary for callers. Writing succeeds, everything
but the filter is read back, and the filter is read back exactly when each of
its written conditions is one that comes back.

## Theorems

* `address?_eq_ok_iff`, `address?_eq_error_iff`: When an address can be written, and how
  writing it fails.
* `parts_written`: What a written address is cut into.
* `base_options_written`, `filter_written_of`, `filter_written`, `query_written`:
  What a written address is read as.
* `filter_reread_iff`: When a reread filter is the filter itself.
* `columns_written`, `sort_written`: Columns and sort keys are read back.
* `query_address_iff`: Writing succeeds, and what is read back.
-/

namespace TagCatalog

open Text OrderedMap Percent

namespace Addressing

variable (a : Addressing)

/-- An address can be written exactly when there is a column and the written
    conditions have the right numbers of values. -/
theorem address?_eq_ok_iff (filter : Filter) (columns : List String) (sort : List SortKey)
    (address : List Char) :
    a.address? filter columns sort = .ok address ↔
      columns ≠ [] ∧ (∀ c ∈ (a.writtenPart filter).ungrouped, c.2.hasValidArity = true) ∧
      address = a.base.toList ++ a.clauseText filter ++ '(' :: joinWith ';' (columns.map escape) ++
        ')' :: joinWith ',' (sort.map SortKey.item) ++ a.options.tail := by
  unfold address?
  by_cases hcolumns : columns = []
  · rw [hcolumns]
    exact iff_of_false (fun h => nomatch h) fun h => h.1 rfl
  · rw [List.isEmpty_eq_false_iff.mpr hcolumns]
    simp only [Bool.false_eq_true, if_false, ne_eq, hcolumns, not_false_eq_true, true_and]
    have hiff := a.clause?_eq_ok_iff filter
    cases hclause : a.clause? filter with
    | error e =>
      refine iff_of_false (fun h => nomatch h) fun h => ?_
      have hok := (hiff _).mpr ⟨rfl, h.1⟩
      rw [hclause] at hok
      exact nomatch hok
    | ok clause =>
      rcases (hiff clause).mp hclause with ⟨rfl, harity⟩
      simp only [Except.ok.injEq]
      exact ⟨fun h => ⟨harity, h.symm⟩, fun h => h.2.symm⟩

theorem address?_eq_error_iff (filter : Filter) (columns : List String) (sort : List SortKey)
    (e : AddressError) : a.address? filter columns sort = .error e ↔
      if columns = [] then e = .noColumns else fault? (a.conditions filter) = some e := by
  unfold address?
  by_cases hcolumns : columns = []
  · rw [if_pos hcolumns, if_pos (by simp [hcolumns]), Except.error.injEq]
    exact eq_comm
  · rw [if_neg hcolumns, if_neg (by simp [hcolumns]), ← a.clause?_eq_error_iff]
    cases a.clause? filter with
    | error e' => exact Iff.rfl
    | ok clause => exact iff_of_false (fun h => nomatch h) fun h => nomatch h

theorem no_mark_columns (columns : List String) (c : Char)
    (hc : Percent.keptInName c = false ∧ c ≠ '%') (hne : c ≠ ';') :
    c ∉ joinWith ';' (columns.map escape) :=
  not_mem_joinWith ';' _ c hne
    (List.forall_mem_map.mpr fun _ _ => not_mem_encode holdsDigits_name hc)

theorem no_mark_sort (sort : List SortKey) (c : Char)
    (hc : Percent.keptInName c = false ∧ c ≠ '%') (hmark : ∀ d : Direction, c ∉ d.mark)
    (hne : c ≠ ',') : c ∉ joinWith ',' (sort.map SortKey.item) :=
  not_mem_joinWith ',' _ c hne
    (List.forall_mem_map.mpr fun k _ => SortKey.not_mem_item k c hc hmark)

/-- Written columns are read back, in order and with repetitions. -/
theorem columns_written (columns : List String) (h : ∀ c ∈ columns, c ≠ "") :
    (filledPieces ';' (joinWith ';' (columns.map escape))).map unescape = columns := by
  rw [filledPieces_joinWith, List.map_map, map_eq_iff]
  · exact fun c _ => unescape_escape c
  · intro p hp
    rcases List.mem_map.mp hp with ⟨s, _, rfl⟩
    exact not_mem_encode holdsDigits_name (by decide)
  · intro p hp
    rcases List.mem_map.mp hp with ⟨s, hs, rfl⟩
    exact fun hnil => h s hs ((escape_eq_nil_iff s).mp hnil)

/-- Written sort keys are read back, in order. -/
theorem sort_written (sort : List SortKey) (h : ∀ k ∈ sort, k.name ≠ "" ∨ k.direction = .asc) :
    (filledPieces ',' (joinWith ',' (sort.map SortKey.item))).map SortKey.ofItem = sort := by
  have hmark : ∀ d : Direction, ',' ∉ d.mark := by
    intro d
    cases d <;> decide
  rw [filledPieces_joinWith, List.map_map, map_eq_iff]
  · exact fun k hk => SortKey.ofItem_item k (h k hk)
  · intro p hp
    rcases List.mem_map.mp hp with ⟨k, _, rfl⟩
    exact SortKey.not_mem_item k ',' (by decide) hmark
  · intro p hp
    rcases List.mem_map.mp hp with ⟨k, _, rfl⟩
    exact SortKey.item_ne_nil k

/-- Cut at its marks, a written address falls into the texts it was written
    from. -/
theorem parts_written (filter : Filter) (columns : List String) (sort : List SortKey)
    (address : List Char) (hbase : PlainBase a.base.toList)
    (h : a.address? filter columns sort = .ok address) :
    AddressParts.ofAddress address =
      { base := a.base.toList
        clause := a.clauseText filter
        columns := some (joinWith ';' (columns.map escape))
        sort := joinWith ',' (sort.map SortKey.item)
        options := joinWith '&' (a.options.fields.map fun f => f.1 ++ '=' :: f.2) } := by
  rcases (a.address?_eq_ok_iff filter columns sort address).mp h with ⟨_, _, rfl⟩
  have hquestion := a.not_mem_clauseText filter '?' (by decide) (by decide)
  have hparen := a.not_mem_clauseText filter '(' (by decide) (by decide)
  have hslash := a.not_mem_clauseText filter '/' (by decide) (by decide)
  rw [Options.tail_eq_fields]
  exact AddressParts.ofAddress_written _ _ _ _ _ hbase ⟨hquestion, hparen, hslash⟩
    ⟨no_mark_columns columns '?' (by decide) (by decide),
      no_mark_columns columns ')' (by decide) (by decide)⟩
    (no_mark_sort sort '?' (by decide) (fun d => by cases d <;> decide) (by decide))

/-- Base and options of a written address are read back, whatever its tags and
    columns are called. -/
theorem base_options_written (filter : Filter) (columns : List String) (sort : List SortKey)
    (address : List Char) (hbase : PlainBase a.base.toList)
    (h : a.address? filter columns sort = .ok address) :
    (a.reading.query address).base = a.base ∧
      (a.reading.query address).options = a.options.written := by
  unfold Reading.query
  simp only [a.parts_written filter columns sort address hbase h, String.ofList_toList,
    Options.ofTail_fields, and_self]

/-- What the filter of a written address is read as with any schema and zone. -/
theorem filter_written_of (r : Reading) (filter : Filter) (columns : List String)
    (sort : List SortKey) (address : List Char) (hbase : PlainBase a.base.toList)
    (htags : ∀ e ∈ (a.writtenPart filter).entries, e.1 ≠ "")
    (h : a.address? filter columns sort = .ok address) :
    (r.query address).filter =
      (a.writtenPart filter).mapValues fun tag ps => ps.map (r.ofWritten (a.suffix tag) tag) := by
  have harity := ((a.address?_eq_ok_iff filter columns sort address).mp h).2.1
  unfold Reading.query
  simp only [a.parts_written filter columns sort address hbase h,
    a.filter_clauseText r filter htags harity]

/-- What the filter of a written address is read as, whatever the columns are
    called. -/
theorem filter_written (filter : Filter) (columns : List String) (sort : List SortKey)
    (address : List Char) (hbase : PlainBase a.base.toList)
    (htags : ∀ e ∈ (a.writtenPart filter).entries, e.1 ≠ "")
    (h : a.address? filter columns sort = .ok address) :
    (a.reading.query address).filter =
      (a.writtenPart filter).mapValues fun tag ps => ps.map (a.reread tag) :=
  a.filter_written_of a.reading filter columns sort address hbase htags h

/-- What a written address is read as. -/
theorem query_written (filter : Filter) (columns : List String) (sort : List SortKey)
    (address : List Char) (hbase : PlainBase a.base.toList)
    (htags : ∀ e ∈ (a.writtenPart filter).entries, e.1 ≠ "") (hcolumns : ∀ c ∈ columns, c ≠ "")
    (hsort : ∀ k ∈ sort, k.name ≠ "" ∨ k.direction = .asc)
    (h : a.address? filter columns sort = .ok address) :
    a.reading.query address =
      { base := a.base
        filter := (a.writtenPart filter).mapValues fun tag ps => ps.map (a.reread tag)
        columns
        sort
        options := a.options.written } := by
  have hfilter := a.filter_written filter columns sort address hbase htags h
  have hrest := a.base_options_written filter columns sort address hbase h
  unfold Reading.query at hfilter hrest ⊢
  simp only [a.parts_written filter columns sort address hbase h, Option.getD_some,
    columns_written columns hcolumns, sort_written sort hsort] at hfilter hrest ⊢
  rw [hfilter, hrest.1, hrest.2]

/-- A filter whose conditions are reread is the filter itself exactly when each
    of them comes back. -/
theorem filter_reread_iff (filter : Filter)
    (harity : ∀ e ∈ filter.entries, ∀ p ∈ e.2, p.hasValidArity = true) :
    (filter.mapValues fun tag ps => ps.map (a.reread tag)) = filter ↔
      ∀ e ∈ filter.entries, ∀ p ∈ e.2, a.schema.Keeps e.1 p := by
  rw [mapValues_eq_iff]
  exact forall₂_congr fun e he => forall₂_congr fun p hp =>
    a.reread_eq_iff e.1 p (harity e he p hp)

/-- Writing a request succeeds, and all of it is read back but for what a range
    leaves out and, exactly when some written condition is not one that comes
    back, the filter. -/
theorem query_address_iff (filter : Filter) (columns : List String) (sort : List SortKey)
    (hbase : PlainBase a.base.toList)
    (hfilter : ∀ e ∈ filter.entries,
      e.1 ≠ "" ∧ ∀ p ∈ e.2, p.isUnset = false → p.hasValidArity = true)
    (hne : columns ≠ []) (hcolumns : ∀ c ∈ columns, c ≠ "") (hsort : ∀ k ∈ sort, k.name ≠ "") :
    ∃ address, a.address? filter columns sort = .ok address ∧
      (a.reading.query address).base = a.base ∧
      (a.reading.query address).columns = columns ∧
      (a.reading.query address).sort = sort ∧
      (a.reading.query address).options = a.options.written ∧
      ((a.reading.query address).filter = a.writtenPart filter ↔
        ∀ e ∈ (a.writtenPart filter).entries, ∀ p ∈ e.2, a.schema.Keeps e.1 p) := by
  -- What is asked of the filter carries over to its written part.
  have hentries : ∀ e ∈ (a.writtenPart filter).entries,
      e.1 ≠ "" ∧ ∀ p ∈ e.2, p.hasValidArity = true := by
    intro e he
    rcases a.mem_writtenPart filter e he with ⟨ps, hps, _, _, hall⟩
    rcases hfilter _ hps with ⟨htag, harity⟩
    exact ⟨htag, fun p hp => harity p (hall p hp).1 (hall p hp).2⟩
  have harity : ∀ c ∈ (a.writtenPart filter).ungrouped, c.2.hasValidArity = true := by
    intro c hc
    rcases (mem_ungrouped _ c).mp hc with ⟨ps, hps, hmem⟩
    exact (hentries _ hps).2 c.2 hmem
  have hok := (a.address?_eq_ok_iff filter columns sort _).mpr ⟨hne, harity, rfl⟩
  have hquery := a.query_written filter columns sort _ hbase (fun e he => (hentries e he).1)
    hcolumns (fun k hk => Or.inl (hsort k hk)) hok
  refine ⟨_, hok, ?_⟩
  rw [hquery]
  exact ⟨rfl, rfl, rfl, rfl, a.filter_reread_iff _ fun e he => (hentries e he).2⟩

/-- On points in time an interval without a lower bound comes back. -/
theorem query_address_open_interval :
    let schema : Schema := .ofList [("m", { type := .timestamp })]
    let a : Addressing := ⟨"h/", schema, ⟨-28800, by decide⟩, {}, some "x"⟩
    let filter : Filter := .ofList [("m", [.between "" "1", ⟨.unset, []⟩]), ("x", [.tagged])]
    ∃ address, a.address? filter ["c", "c"] [⟨"c", .desc⟩] = .ok address ∧
      (a.reading.query address).columns = ["c", "c"] ∧
      (a.reading.query address).filter.entries = [("m", [.between "" "1"])] := by
  intro schema a filter
  have hbase : PlainBase a.base.toList :=
    ⟨Or.inr ⟨['h'], by decide +revert⟩, by decide +revert, by decide +revert⟩
  rcases query_address_iff a filter ["c", "c"] [⟨"c", .desc⟩] hbase (by decide +revert) (by decide)
    (by decide) (by decide) with ⟨address, hok, _, hcolumns, _, _, hfilter⟩
  have hwritten : (a.writtenPart filter).entries = [("m", [.between "" "1"])] := by rfl
  refine ⟨address, hok, hcolumns, ?_⟩
  rw [hfilter.mpr, hwritten]
  rw [hwritten]
  intro e he p hp
  rw [List.mem_singleton] at he
  subst he
  rw [List.mem_singleton] at hp
  subst hp
  rw [Schema.keeps_between, if_pos (show a.schema.isTimestamp "m" = true from rfl)]
  exact ⟨rfl, by decide, by decide, by decide⟩

end Addressing

end TagCatalog
