import TagCatalog.Proofs.View.Bookmark

/-!
# Requests of One View

All requests of a view are about the same subjects.

A view asks under four kinds of address: for a page of rows, for their number, for
the values of a tag, and for itself as a bookmark. Whoever writes an address may
bring settings of their own, with a range, a limit, an offset or an excluded tag
that were meant for something else, and each kind of request has to put its own in
their place. If one of them were forgotten, a number would be shown that is not the
number of the rows.

What the four have in common is the clause, and with it the reason for which they
cannot be written. `View.obstacle?` is that reason, said of the view alone. It is
the first condition in the order of the filter that was chosen, is not on the tag
under edit, and has a wrong number of values. With an obstacle all requests fail,
and in the same way. Without one all can be written, and reading them back gives
requests with the same base and the same filter, which is `View.selection`.

## Main definitions

* `View.obstacle?`: The condition that stops the requests of a view.
* `View.selection`: The filter of all requests of a view.
* `View.listed`: The columns that are asked for with rows.
* `View.FailsAlike`: All requests of a view fail in the same way.
* `View.Asks`: An address that is read as a given request.
* `View.pageQuery`, `View.rangeQuery`: What a view asks for.
* `View.AsksAlike`: All requests of a view have the same filter.

## Theorems

* `fault?_eq_obstacle`: The fault of an address is the obstacle of its view.
* `count_listed`: The subjects' numbers are asked for once.
* `failsAlike_of_obstacle`, `asksAlike_of_no_obstacle`: The two ways it can go.
* `requests_select_alike`: All requests of a view are about the same subjects.
-/

namespace TagCatalog

open OrderedMap

namespace Addressing

/-- The fault of some of the given conditions is the first of them that has a wrong
    number of values. -/
theorem fault?_filter (kept : String × Predicate → Bool) (cs : List (String × Predicate)) :
    fault? (cs.filter kept) =
      (cs.find? fun c => kept c && !c.2.hasValidArity).map fun c =>
        .arity c.1 c.2.op c.2.values.length := by
  unfold fault?
  induction cs with
  | nil => rfl
  | cons c cs ih =>
    by_cases hkept : kept c = true
    · rw [List.filter_cons_of_pos hkept, List.findSome?_cons, List.find?_cons, ih, hkept]
      by_cases harity : c.2.hasValidArity = true
      · simp [harity]
      · simp [harity]
    · rw [List.filter_cons_of_neg hkept, ih, List.find?_cons_of_neg (by simp [hkept])]

end Addressing

namespace View

/-- The first condition of a view that stops its requests, with its tag: not on the
    tag under edit, chosen, and with a wrong number of values. -/
def obstacle? (v : View) : Option (String × Predicate) :=
  v.filter.ungrouped.find? fun c =>
    v.editing ≠ some c.1 && !c.2.isUnset && !c.2.hasValidArity

/-- The filter of all requests of a view: what is written of its own filter, with
    each condition as it is read back. -/
def selection (v : View) (a : Addressing) : Filter :=
  ((v.settings a).writtenPart v.filter).mapValues fun tag ps => ps.map ((v.settings a).reread tag)

/-- The columns that are asked for with rows: those that are shown, and the
    subjects' numbers behind them unless they are shown already. -/
def listed (v : View) : List String :=
  if idColumn ∈ v.columns then v.columns else v.columns ++ [idColumn]

/-- All requests of a view fail in the same way. -/
structure FailsAlike (v : View) (a : Addressing) (e : AddressError) : Prop where
  rows : v.rows? a = .error (.address e)
  count : v.count? a = .error (.address e)
  range : ∀ tag mode, v.range? a tag mode = .error (.address e)
  bookmark : v.columns ≠ [] → v.bookmark? a = .error (.address e)

/-- An address could be written and is read as a request. -/
def Asks (a : Addressing) (written : Except ViewError String) (q : Query) : Prop :=
  ∃ address, written = .ok address ∧ a.reading.query address.toList = q

/-- What is asked of the selection with the sort keys and the page of a view, from
    the first row on while a tag is edited. -/
def pageQuery (v : View) (a : Addressing) (columns : List String) : Query where
  base := a.base
  filter := v.selection a
  columns
  sort := v.sort
  options :=
    { versions := a.options.versions
      limit := some (.rows v.page.size)
      offset := if v.edit.isSome then none else some v.page.offset
      range := none }

/-- What is asked of the selection about one column. -/
def rangeQuery (v : View) (a : Addressing) (tag : String) (mode : RangeMode) : Query where
  base := a.base
  filter := v.selection a
  columns := [tag]
  sort := []
  options := { versions := a.options.versions, limit := none, offset := none, range := some mode }

/-- All requests of a view can be written, and what they are read as has the same
    base, filter and versions. -/
structure AsksAlike (v : View) (a : Addressing) : Prop where
  rows : Asks a (v.rows? a) (v.pageQuery a v.listed)
  count : Asks a (v.count? a) (v.rangeQuery a idColumn .count)
  range : ∀ tag mode, tag ≠ "" → Asks a (v.range? a tag mode) (v.rangeQuery a tag mode)
  bookmark : v.columns ≠ [] → Asks a (v.bookmark? a) (v.pageQuery a v.columns)

variable {v : View} {a : Addressing}

theorem rows?_eq (v : View) (a : Addressing) :
    v.rows? a = View.address? (v.pageSettings a) v.filter v.listed v.sort := by
  simp only [rows?, listed, List.contains_iff_mem]

theorem listed_ne_nil (v : View) : v.listed ≠ [] := by
  unfold listed
  split
  · next hid => exact List.ne_nil_of_mem hid
  · exact List.append_ne_nil_of_right_ne_nil _ (List.cons_ne_nil _ _)

theorem ne_empty_of_mem_listed (hcolumns : ∀ c ∈ v.columns, c ≠ "") : ∀ c ∈ v.listed, c ≠ "" := by
  unfold listed
  split
  · exact hcolumns
  · intro c hc
    rcases List.mem_append.mp hc with hc | hc
    · exact hcolumns c hc
    · rw [List.mem_singleton.mp hc]
      decide

/-- The subjects' numbers are asked for once. -/
theorem count_listed (hv : v.columns.Nodup) : v.listed.count idColumn = 1 := by
  unfold listed
  split
  · next hid => exact List.count_eq_one_of_mem hv hid
  · next hid => rw [List.count_append, List.count_eq_zero.mpr hid, List.count_singleton_self]

/-- Whatever else is asked for, the fault of an address of a view is its obstacle. -/
theorem fault?_eq_obstacle (hexcluded : a.excluded = v.editing) :
    Addressing.fault? (a.conditions v.filter) =
      v.obstacle?.map fun c => .arity c.1 c.2.op c.2.values.length := by
  rw [a.conditions_eq_filter, Addressing.fault?_filter, obstacle?, hexcluded]

/-- With an obstacle no address with a column can be written. -/
theorem address?_of_obstacle {tag : String} {p : Predicate} (h : v.obstacle? = some (tag, p))
    (options : Options) {columns : List String} (hne : columns ≠ []) (sort : List SortKey) :
    View.address? { v.settings a with options } v.filter columns sort =
      .error (.address (.arity tag p.op p.values.length)) := by
  have hfault := fault?_eq_obstacle (v := v) (a := { v.settings a with options }) rfl
  rw [h, Option.map_some] at hfault
  have herror := ({ v.settings a with options } : Addressing).address?_eq_error_iff v.filter columns
    sort (.arity tag p.op p.values.length)
  rw [if_neg hne] at herror
  rw [View.address?, herror.mpr hfault]

theorem failsAlike_of_obstacle {tag : String} {p : Predicate} (h : v.obstacle? = some (tag, p)) :
    v.FailsAlike a (.arity tag p.op p.values.length) := by
  have hrange : ∀ t mode, v.range? a t mode = .error (.address (.arity tag p.op p.values.length)) :=
    fun t mode => address?_of_obstacle h _ (List.cons_ne_nil t []) []
  refine ⟨?_, hrange idColumn .count, hrange, fun hne => address?_of_obstacle h _ hne v.sort⟩
  rw [rows?_eq]
  exact address?_of_obstacle h _ v.listed_ne_nil v.sort

/-- Without an obstacle an address of a view can be written, and it is read back as
    what was asked for of the selection. -/
theorem asks_of_no_obstacle (h : v.obstacle? = none) (hbase : PlainBase a.base.toList)
    (htags : ∀ e ∈ v.filter.entries, e.1 ≠ "") (options : Options) {columns : List String}
    (hne : columns ≠ []) (hcolumns : ∀ c ∈ columns, c ≠ "") {sort : List SortKey}
    (hsort : ∀ key ∈ sort, key.name ≠ "") :
    Asks a (View.address? { v.settings a with options } v.filter columns sort)
      ⟨a.base, v.selection a, columns, sort, options.written⟩ := by
  have hfault := fault?_eq_obstacle (v := v) (a := { v.settings a with options }) rfl
  rw [h, Option.map_none, Addressing.fault?_eq_none_iff, Addressing.conditions_eq] at hfault
  have hok := (({ v.settings a with options } : Addressing).address?_eq_ok_iff v.filter columns
    sort _).mpr ⟨hne, hfault, rfl⟩
  have hwritten : ∀ e ∈ ((v.settings a).writtenPart v.filter).entries, e.1 ≠ "" := by
    intro e he
    rcases (v.settings a).mem_writtenPart v.filter e he with ⟨ps, hps, _⟩
    exact htags (e.1, ps) hps
  have hquery := ({ v.settings a with options } : Addressing).query_written v.filter columns sort _
    hbase hwritten hcolumns (fun key hkey => Or.inl (hsort key hkey)) hok
  refine ⟨String.ofList _, by rw [View.address?, hok], ?_⟩
  rw [String.toList_ofList]
  exact hquery

theorem asksAlike_of_no_obstacle (hv : v.Sound) (h : v.obstacle? = none)
    (hbase : PlainBase a.base.toList) (htags : ∀ e ∈ v.filter.entries, e.1 ≠ "")
    (hcolumns : ∀ c ∈ v.columns, c ≠ "") : v.AsksAlike a := by
  -- Sort keys have names because columns have.
  have hsort : ∀ key ∈ v.sort, key.name ≠ "" := fun key hkey => hcolumns _ (hv.shown key hkey)
  have hrange : ∀ tag mode, tag ≠ "" → Asks a (v.range? a tag mode) (v.rangeQuery a tag mode) := by
    intro tag mode htag
    refine asks_of_no_obstacle h hbase htags { a.options with range := some mode }
      (List.cons_ne_nil tag []) (fun c hc => ?_) (fun _ hkey => absurd hkey List.not_mem_nil)
    rw [List.mem_singleton.mp hc]
    exact htag
  refine ⟨?_, hrange idColumn .count (by decide), hrange,
    fun hne => asks_of_no_obstacle h hbase htags _ hne hcolumns hsort⟩
  rw [rows?_eq]
  exact asks_of_no_obstacle h hbase htags _ v.listed_ne_nil (ne_empty_of_mem_listed hcolumns) hsort

/-- All requests of a view are about the same subjects. Either its first condition
    with a wrong number of values stops all of them in the same way, or all of them
    are read back with one base, one filter and the versions that were asked for. A
    bookmark needs a column besides. -/
theorem requests_select_alike (hv : v.Reachable) (hbase : PlainBase a.base.toList)
    (htags : ∀ e ∈ v.filter.entries, e.1 ≠ "") (hcolumns : ∀ c ∈ v.columns, c ≠ "") :
    (∀ tag p, v.obstacle? = some (tag, p) → v.FailsAlike a (.arity tag p.op p.values.length)) ∧
      (v.obstacle? = none → v.AsksAlike a) ∧
      (v.columns = [] → v.bookmark? a = .error (.address .noColumns)) ∧
      v.listed.count "id" = 1 ∧
      v.page.offset.toNat = min (v.page.index.toNat * v.page.size.rows.toNat) (2 ^ 64 - 1) := by
  refine ⟨fun tag p => failsAlike_of_obstacle,
    fun h => asksAlike_of_no_obstacle hv.sound h hbase htags hcolumns, fun hnil => ?_,
    count_listed hv.sound.columns, v.page.toNat_offset⟩
  rw [bookmark?, View.address?, hnil]
  rfl

/-- Settings that were meant for something else have no effect, and half an interval
    stops no request as long as it is edited. A condition without values on another
    tag does. -/
theorem requests_select_alike_edited :
    let options : Options := { versions := .any, offset := some 7, range := some .values }
    let a : Addressing := ⟨"h/", .empty, .utc, options, some "x"⟩
    let actions : List Action :=
      [.addColumns ["name"] .prepend, .setFilter "x" [⟨.eq, ["1"]⟩], .setPage 3, .beginEdit "y",
        .setFilter "y" [⟨.between, ["1"]⟩]]
    let v := (View.new ⟨10, by decide⟩).run actions
    let w := (View.new ⟨10, by decide⟩).run (actions ++ [.setFilter "z" [⟨.less, []⟩]])
    v.AsksAlike a ∧ (v.selection a).entries = [("x", [⟨.eq, ["1"]⟩])] ∧
      w.FailsAlike a (.arity "z" .less 0) := by
  intro options a actions v w
  have hselection : (v.selection a).entries = [("x", [⟨.eq, ["1"]⟩])] := by decide +revert
  have hbase : PlainBase a.base.toList :=
    ⟨Or.inr ⟨['h'], by decide +revert⟩, by decide +revert, by decide +revert⟩
  have hfilter : v.filter.entries = [("x", [⟨.eq, ["1"]⟩]), ("y", [⟨.between, ["1"]⟩])] := by rfl
  have hfilter' : w.filter.entries =
      [("x", [⟨.eq, ["1"]⟩]), ("y", [⟨.between, ["1"]⟩]), ("z", [⟨.less, []⟩])] := by rfl
  have hcolumns : v.columns = ["name"] ∧ w.columns = ["name"] := ⟨rfl, rfl⟩
  rcases requests_select_alike (.new _ _ : v.Reachable) hbase (by rw [hfilter]; decide)
    (by rw [hcolumns.1]; decide) with ⟨_, hasks, _⟩
  rcases requests_select_alike (.new _ _ : w.Reachable) hbase (by rw [hfilter']; decide)
    (by rw [hcolumns.2]; decide) with ⟨hfails, _⟩
  exact ⟨hasks rfl, hselection, hfails "z" ⟨.less, []⟩ rfl⟩

end View

end TagCatalog
