import Mathlib.Data.List.Perm.Basic
import TagCatalog.Proofs.Address.NormalForm
import TagCatalog.Proofs.Data.Distinct
import TagCatalog.Proofs.View.Frame

/-!
# Invariant of Views

What is true of a view whatever a person did to it.

Columns, sort keys, conditions and the edit that is open are changed by
different actions, and no action looks at all of them. `View.Sound` says what
fits together nevertheless: the columns are different, the sort keys are on
different columns among those that are shown, no tag is listed without a
condition, and what an edit remembers can be put back without listing one.

The sort keys are the part that ties the pieces together. Removing a column
has to remove its key, and showing other columns has to drop all keys. An edit
is the part that reaches over time, since it puts back conditions that were
saved any number of actions ago. So soundness speaks of the saved conditions
as well as of the current ones.

Each action has a lemma of its own. `sound_after` is the step and `sound_run`
the run, from either way a view can begin.

## Main definitions

* `Filter.Filled`: No tag is listed without a condition.
* `View.Sound`: The invariant.
* `View.Reachable`: A view that a person can bring about.

## Theorems

* `Filled.erase`, `Filled.insert`, `Filled.place`: Changing the conditions of a
  tag.
* `perm_moved`: A list with one element moved.
* `map_name_withDirection`: The columns of sort keys when one has a direction.
* `sound_of_nodup`: A view with nothing but columns.
* `sound_new`, `sound_ofQuery`: The two ways a view can begin.
* `sound_after`, `run_sound`: The invariant is kept by every action and by
  every run.
* `Reachable.sound`: The invariant of a view that can be brought about.
* `sound_run`: The invariant of a run.
-/

namespace TagCatalog

open OrderedMap

/-- No tag is listed without a condition. -/
def Filter.Filled (filter : Filter) : Prop := ∀ e ∈ filter.entries, e.2 ≠ []

namespace Filter.Filled

variable {filter : Filter} (hfilter : filter.Filled) (tag : String)

theorem empty : Filter.Filled .empty := fun _ he => absurd he List.not_mem_nil

include hfilter

theorem erase : Filter.Filled (filter.erase tag) := fun e he =>
  hfilter e ((mem_erase filter tag e).mp he).1

theorem insert (ps : List Predicate) (hps : ps ≠ []) : Filter.Filled (filter.insert tag ps) := by
  intro e he
  rcases mem_insert filter tag ps e he with rfl | he
  · exact hps
  · exact hfilter.erase tag e he

theorem place (i : Nat) (ps : List Predicate) (hps : ps ≠ []) :
    Filter.Filled (filter.place i tag ps) := by
  intro e he
  rcases mem_place filter i tag ps e he with rfl | he
  · exact hps
  · exact hfilter.erase tag e he

end Filter.Filled

/-- Taking an element out and putting it back elsewhere only permutes a list. -/
theorem perm_moved {α : Type} {l : List α} {source target : Nat} {a : α} (ha : l[source]? = some a)
    (htarget : target < l.length) : ((l.eraseIdx source).insertIdx target a).Perm l := by
  rcases List.getElem?_eq_some_iff.mp ha with ⟨hsource, rfl⟩
  refine (List.perm_insertIdx _ _ ?_).trans (List.getElem_cons_eraseIdx_perm hsource)
  rw [List.length_eraseIdx_of_lt hsource]
  omega

namespace View

/-- What is true of a view whatever a person did to it. -/
structure Sound (v : View) : Prop where
  columns : v.columns.Nodup
  sort : (v.sort.map SortKey.name).Nodup
  /-- Only columns that are shown are sorted by. -/
  shown : ∀ key ∈ v.sort, key.name ∈ v.columns
  filter : v.filter.Filled
  /-- The conditions that an open edit would put back. -/
  saved : ∀ edit, v.edit = some edit → ∀ i ps, edit.saved = some (i, ps) → ps ≠ []

/-- Different columns, unsorted, without conditions and without an edit. -/
theorem sound_of_nodup (columns : List String) (page : Page) (h : columns.Nodup) :
    ({ columns, page } : View).Sound where
  columns := h
  sort := List.nodup_nil
  shown := fun _ h => absurd h List.not_mem_nil
  filter := .empty
  saved := fun _ h => absurd h.symm (Option.some_ne_none _)

theorem sound_new (size : PageSize) : (View.new size).Sound :=
  sound_of_nodup [] ⟨0, size⟩ List.nodup_nil

/-- A view that shows a request is sound if no tag of the request is listed
    without a condition. Columns and sort keys may be whatever they are. -/
theorem sound_ofQuery (q : Query) (size : PageSize) (hq : q.filter.Filled) :
    (View.ofQuery q size).Sound where
  columns := nodup_distinct q.columns
  sort := nodup_distinctBy SortKey.name _
  shown := by
    intro key hkey
    have hmem := (List.mem_filter.mp (mem_distinctBy SortKey.name _ key hkey)).2
    exact List.contains_iff_mem.mp hmem
  filter := hq
  saved := fun _ h => absurd h.symm (Option.some_ne_none _)

/-- The columns of sort keys in which one tag has a direction. -/
theorem map_name_withDirection (tag : String) (direction : Direction) (sort : List SortKey) :
    (withDirection tag direction sort).map SortKey.name =
      if tag ∈ sort.map SortKey.name then sort.map SortKey.name
      else sort.map SortKey.name ++ [tag] := by
  induction sort with
  | nil => rfl
  | cons key r ih =>
    rw [withDirection, List.map_cons]
    by_cases hkey : key.name = tag
    · rw [if_pos hkey, if_pos (List.mem_cons.mpr (Or.inl hkey.symm)), List.map_cons, hkey]
    · rw [if_neg hkey, List.map_cons, ih]
      by_cases hmem : tag ∈ r.map SortKey.name
      · rw [if_pos hmem, if_pos (List.mem_cons_of_mem _ hmem)]
      · have hnew : tag ∉ key.name :: r.map SortKey.name := by
          rw [List.mem_cons, not_or]
          exact ⟨fun h => hkey h.symm, hmem⟩
        rw [if_neg hmem, if_neg hnew, List.cons_append]

/-- Showing other columns keeps nothing that could refer to the old ones. -/
theorem sound_replace (v : View) (columns : List String) : (v.replace columns).Sound :=
  sound_of_nodup (distinct columns) { v.page with index := 0 } (nodup_distinct columns)

namespace Sound

variable {v : View} (hv : v.Sound)

include hv

theorem setFilter (tag : String) (ps : List Predicate) : (v.setFilter tag ps).Sound := by
  unfold View.setFilter
  by_cases hps : ps = []
  · rw [if_pos (List.isEmpty_iff.mpr hps)]
    exact { hv with filter := hv.filter.erase tag }
  · rw [if_neg fun h => hps (List.isEmpty_iff.mp h)]
    exact { hv with filter := hv.filter.insert tag ps hps }

/-- New columns in front of others. -/
theorem prepend (tags : List String) :
    ({ v with columns := v.unshown tags ++ v.columns } : View).Sound := by
  refine { hv with columns := ?_, shown := fun key hkey => ?_ }
  · refine List.nodup_append.mpr ⟨nodup_distinct _, hv.columns, fun a ha b hb hab => ?_⟩
    -- Tags that are shown already were left out before.
    exact ((v.mem_unshown tags a).mp ha).2 (hab ▸ hb)
  · exact List.mem_append_right _ (hv.shown key hkey)

theorem addColumns (tags : List String) (policy : AddPolicy) :
    (v.addColumns tags policy).1.Sound := by
  cases policy with
  | prepend => exact hv.prepend tags
  | replaceAll =>
    -- Clearing the view leaves a sound one, in which every tag is new.
    have hcleared : ({ page := v.page } : View).Sound := sound_of_nodup [] v.page List.nodup_nil
    exact hcleared.prepend tags

/-- The sort keys that are left are on columns that are left. -/
theorem removeColumn (tag : String) : (v.removeColumn tag).1.Sound := by
  unfold View.removeColumn
  split
  · refine { hv with columns := hv.columns.erase tag, sort := ?_, shown := fun key hkey => ?_ }
    · exact hv.sort.sublist (List.filter_sublist.map SortKey.name)
    · rcases List.mem_filter.mp hkey with ⟨hmem, hne⟩
      exact (List.mem_erase_of_ne (of_decide_eq_true hne)).mpr (hv.shown key hmem)
  · exact hv

/-- A direction is given to a column that is shown. -/
theorem sortBy (tag : String) (direction : Direction) (htag : tag ∈ v.columns) :
    ({ v with sort := withDirection tag direction v.sort } : View).Sound := by
  have hnames := map_name_withDirection tag direction v.sort
  refine { hv with sort := ?_, shown := fun key hkey => ?_ }
  · show ((withDirection tag direction v.sort).map SortKey.name).Nodup
    rw [hnames]
    split
    · exact hv.sort
    · next hnew =>
      refine List.nodup_append.mpr ⟨hv.sort, by simp, fun a ha b hb hab => ?_⟩
      rw [hab, List.mem_singleton.mp hb] at ha
      exact hnew ha
  · -- A key is on a column of an old key or on the column itself.
    have hmem : key.name ∈ (withDirection tag direction v.sort).map SortKey.name :=
      List.mem_map_of_mem hkey
    have hshown : ∀ name ∈ v.sort.map SortKey.name, name ∈ v.columns := by
      intro name hname
      rcases List.mem_map.mp hname with ⟨k, hk, rfl⟩
      exact hv.shown k hk
    rw [hnames] at hmem
    split at hmem
    · exact hshown _ hmem
    · rcases List.mem_append.mp hmem with hmem | hmem
      · exact hshown _ hmem
      · rw [List.mem_singleton.mp hmem]
        exact htag

theorem setSort (tag : String) (direction : Option Direction) :
    (v.setSort tag direction).1.Sound := by
  unfold View.setSort
  split
  · next htag =>
    cases direction with
    | some d => exact hv.sortBy tag d (List.contains_iff_mem.mp htag)
    | none =>
      refine { hv with sort := ?_, shown := fun key hkey => ?_ }
      · exact hv.sort.sublist (List.filter_sublist.map SortKey.name)
      · exact hv.shown key (List.mem_filter.mp hkey).1
  · exact hv

/-- Moving a column changes the order of the columns and nothing else. -/
theorem reorderColumns (source target : Nat) (w : View)
    (h : v.reorderColumns source target = .ok w) : w.Sound := by
  rcases (reorderColumns_eq_ok_iff v w source target).mp h with ⟨column, hcolumn, htarget, rfl⟩
  have hperm := perm_moved hcolumn htarget
  refine { hv with columns := hperm.nodup_iff.mpr hv.columns, shown := fun key hkey => ?_ }
  exact hperm.mem_iff.mpr (hv.shown key hkey)

/-- An edit remembers conditions of a tag that has some. -/
theorem beginEdit (tag : String) : (v.beginEdit tag).1.Sound := by
  cases hopen : v.edit with
  | some edit =>
    rw [beginEdit_of_edit tag hopen]
    exact hv
  | none =>
    rcases beginEdit_edit tag hopen with ⟨saved, hbegin, hget, _⟩
    rw [hbegin]
    refine { hv with saved := fun edit hedit i ps hsaved => ?_ }
    rw [← Option.some.inj hedit] at hsaved
    -- Conditions are only saved if the tag was found, and then they are an entry.
    exact hv.filter _ (mem_of_get? v.filter tag ps (hget.symm.trans (congrArg _ hsaved)))

theorem saveEdit (schema : Schema) (w : View) (h : v.saveEdit schema = .ok w) : w.Sound := by
  rcases (saveEdit_eq_ok_iff v w schema).mp h with ⟨edit, _, _, rfl⟩
  exact { hv.setFilter edit.tag _ with saved := fun _ he => absurd he.symm (Option.some_ne_none _) }

/-- What is put back was saved by an edit. -/
theorem cancelEdit : v.cancelEdit.1.Sound := by
  unfold View.cancelEdit
  split
  · exact hv
  · next edit hedit =>
    refine { hv with filter := ?_, saved := fun _ he => absurd he.symm (Option.some_ne_none _) }
    simp only
    split
    · next i ps hsaved => exact hv.filter.place edit.tag i ps (hv.saved edit hedit i ps hsaved)
    · exact hv.filter.erase edit.tag

end Sound

/-- Every action keeps a view sound, whether it fails or not. -/
theorem sound_after (v : View) (action : Action) (hv : v.Sound) : (v.after action).Sound := by
  cases action with
  | setFilter tag ps => exact hv.setFilter tag ps
  | clearFilter tag => exact { hv with filter := hv.filter.erase tag }
  | clearAllFilters => exact { hv with filter := .empty }
  | replace columns => exact sound_replace v columns
  | addColumns tags policy => exact hv.addColumns tags policy
  | removeColumn tag => exact hv.removeColumn tag
  | setSort tag direction => exact hv.setSort tag direction
  | reorderColumns source target =>
    rw [after_reorderColumns]
    cases h : v.reorderColumns source target with
    | ok w => exact hv.reorderColumns source target w h
    | error e => exact hv
  | setPage | nextPage | previousPage | setPageSize => exact { hv with }
  | beginEdit tag => exact hv.beginEdit tag
  | saveEdit schema =>
    rw [after_saveEdit]
    cases h : v.saveEdit schema with
    | ok w => exact hv.saveEdit schema w h
    | error e => exact hv
  | cancelEdit => exact hv.cancelEdit

theorem run_sound (v : View) (actions : List Action) (hv : v.Sound) : (v.run actions).Sound := by
  -- The view that the rest of the run starts from is another one each time.
  induction actions generalizing v with
  | nil => exact hv
  | cons action actions ih => exact ih (v.after action) (sound_after v action hv)

/-- A request that was read lists no tag without a condition. -/
theorem filled_query (r : Reading) (address : List Char) : (r.query address).filter.Filled :=
  fun e he => ((r.normal_query address).filter e he).2.1

/-- A view that a person can bring about, beginning empty or with a request that
    was read. -/
inductive Reachable : View → Prop
  | new (size : PageSize) (actions : List Action) : Reachable ((View.new size).run actions)
  | opened (r : Reading) (address : List Char) (size : PageSize) (actions : List Action) :
    Reachable ((View.ofQuery (r.query address) size).run actions)

theorem Reachable.sound {v : View} (h : v.Reachable) : v.Sound := by
  cases h with
  | new size actions => exact run_sound _ actions (sound_new size)
  | opened r address size actions =>
    exact run_sound _ actions (sound_ofQuery _ size (filled_query r address))

/-- Whatever is done to a view that begins empty or with a request that was
    read, it stays sound. -/
theorem sound_run (size : PageSize) (actions : List Action) :
    ((View.new size).run actions).Sound ∧
      ∀ (r : Reading) (address : List Char),
        ((View.ofQuery (r.query address) size).run actions).Sound :=
  ⟨(Reachable.new size actions).sound, fun r address =>
    (Reachable.opened r address size actions).sound⟩

end View

end TagCatalog
