import TagCatalog.Proofs.View.Invariant

/-!
# Arranging Columns

What becomes of the columns of a view when some are added, one is removed or one is
moved.

A view shows no column twice, so a column can be named by its tag as well as by its
place. Actions mix the two. What is added or removed is given by tags, what is moved by
places, and a place means another column as soon as something in front of it has come
or gone. The statements here are about tags wherever a place could shift. A column that
was removed is one that is left out of the list, and so is one that was taken up to be
moved, which is `eraseIdx_eq_filter`. What a move does to the other columns is then told
by leaving out the same tag before and afterwards.

Taking a column up at the place where it was put down leaves what was left the first
time, and so moving it back restores the view, whichever of the two places comes first.

New columns stand in front. Which they are is `View.unshown`, and their order is that in
which their tags first occur among the ones that were given. Once they are shown, none of
these tags is new.

## Main definitions

* `View.Moved`: A view in which one column stands elsewhere.

## Theorems

* `unshown_eq_nil_iff`, `pairwise_unshown`: Which columns are new, and their order.
* `addColumns_again`: What is shown is not added again.
* `removeColumn_eq`: A removed column is left out, and so is its sort key.
* `erase_eq_filter`, `eraseIdx_eq_filter`: Leaving out a tag, and leaving out a place.
* `getElem?_moved`: Where a moved column stands.
* `reorderColumns_moved`, `reorderColumns_back`: A column is moved, and moved back.
* `columns_arranged`: Adding, removing and moving columns.
-/

namespace TagCatalog

namespace View

/-- A view in which a column stands at a place, the others are as before, and nothing
    but the columns is changed. -/
structure Moved (v : View) (column : String) (place : Nat) (w : View) : Prop where
  columns : w.columns.Perm v.columns
  place : w.columns[place]? = some column
  others : (w.columns.filter fun tag => tag ≠ column) = v.columns.filter fun tag => tag ≠ column
  rest : w = { v with columns := w.columns }

section Adding

variable (v : View) (tags : List String)

theorem unshown_eq_nil_iff : v.unshown tags = [] ↔ ∀ tag ∈ tags, tag ∈ v.columns := by
  rw [unshown, distinct, distinctBy_eq_nil_iff, List.filter_eq_nil_iff]
  simp

/-- New columns stand in the order in which their tags first occur. -/
theorem pairwise_unshown :
    (v.unshown tags).Pairwise fun a b => tags.idxOf a < tags.idxOf b := by
  have hfilter : v.unshown tags = (distinct tags).filter fun tag => !v.columns.contains tag :=
    distinctBy_filter id (fun tag => !v.columns.contains tag) tags
  rw [hfilter]
  exact (pairwise_distinct tags).filter _

/-- Columns that were just added are shown, and so none of them is added again. -/
theorem addColumns_again :
    (v.addColumns tags .prepend).1.addColumns tags .prepend =
      ((v.addColumns tags .prepend).1, false) := by
  have hshown : (v.addColumns tags .prepend).1.unshown tags = [] := by
    rw [unshown_eq_nil_iff, addColumns_prepend]
    intro tag htag
    by_cases hcolumn : tag ∈ v.columns
    · exact List.mem_append_right _ hcolumn
    · exact List.mem_append_left _ ((v.mem_unshown tags tag).mpr ⟨htag, hcolumn⟩)
  rw [addColumns_prepend _ tags, hshown]
  rfl

end Adding

/-- Where nothing occurs twice, removing a tag is leaving it out. -/
theorem erase_eq_filter {l : List String} (hl : l.Nodup) (tag : String) :
    l.erase tag = l.filter fun a => a ≠ tag := by
  rw [hl.erase_eq_filter]
  refine List.filter_congr fun a _ => ?_
  rw [bne, decide_not]
  rfl

/-- A removed column is left out, and so is its sort key. If the tag is no column then
    there is nothing to leave out. -/
theorem removeColumn_eq {v : View} (hv : v.Sound) (tag : String) :
    v.removeColumn tag =
      ({ v with
          columns := v.columns.filter fun column => column ≠ tag
          sort := v.sort.filter fun key => key.name ≠ tag }, decide (tag ∈ v.columns)) := by
  rw [← erase_eq_filter hv.columns]
  unfold removeColumn
  by_cases htag : tag ∈ v.columns
  · rw [if_pos (List.contains_iff_mem.mpr htag), decide_eq_true htag]
  · -- Only columns are sorted by, so there is no sort key either.
    have hsort : v.sort.filter (fun key => key.name ≠ tag) = v.sort :=
      List.filter_eq_self.mpr fun key hkey =>
        decide_eq_true fun h => htag (h ▸ hv.shown key hkey)
    rw [if_neg fun h => htag (List.contains_iff_mem.mp h), List.erase_of_not_mem htag, hsort,
      decide_eq_false htag]

section Moving

variable {v : View} {source target : Nat} {column : String}

/-- Leaving out a place is leaving out what stands there. -/
theorem eraseIdx_eq_filter {l : List String} (hl : l.Nodup) {place : Nat} {tag : String}
    (htag : l[place]? = some tag) : l.eraseIdx place = l.filter fun a => a ≠ tag := by
  rcases List.getElem?_eq_some_iff.mp htag with ⟨hplace, rfl⟩
  rw [← hl.erase_getElem place hplace, erase_eq_filter hl]

theorem getElem?_moved {l : List String} (hcolumn : l[source]? = some column)
    (htarget : target < l.length) :
    ((l.eraseIdx source).insertIdx target column)[target]? = some column := by
  have hsource := (List.getElem?_eq_some_iff.mp hcolumn).1
  rw [List.getElem?_insertIdx_self, if_pos]
  rw [List.length_eraseIdx_of_lt hsource]
  omega

/-- A column that is moved stands at its new place, and the others are as before. -/
theorem reorderColumns_moved (hv : v.Sound) (hcolumn : v.columns[source]? = some column)
    (htarget : target < v.columns.length) :
    ∃ w, v.reorderColumns source target = .ok w ∧ v.Moved column target w := by
  have hperm := perm_moved hcolumn htarget
  have hplace := getElem?_moved hcolumn htarget
  refine ⟨_, (reorderColumns_eq_ok_iff v _ source target).mpr ⟨column, hcolumn, htarget, rfl⟩,
    hperm, hplace, ?_, rfl⟩
  -- Taken up again at its new place, the column leaves the same list behind.
  rw [← eraseIdx_eq_filter (hperm.nodup_iff.mpr hv.columns) hplace, List.eraseIdx_insertIdx_self,
    eraseIdx_eq_filter hv.columns hcolumn]

/-- Moving a column back restores the view. -/
theorem reorderColumns_back {w : View} (h : v.reorderColumns source target = .ok w) :
    w.reorderColumns target source = .ok v := by
  rcases (reorderColumns_eq_ok_iff v w source target).mp h with ⟨column, hcolumn, htarget, rfl⟩
  have hlength := (perm_moved hcolumn htarget).length_eq
  rcases List.getElem?_eq_some_iff.mp hcolumn with ⟨hsource, rfl⟩
  refine (reorderColumns_eq_ok_iff _ v target source).mpr
    ⟨v.columns[source], getElem?_moved hcolumn htarget, ?_, ?_⟩
  · rw [hlength]
    exact hsource
  · rw [List.eraseIdx_insertIdx_self, List.insertIdx_eraseIdx_getElem]

end Moving

/-- No column of a view that can be brought about is lost unless it is removed, and none
    changes its order with others unless it is moved. Added columns stand in front, each
    tag that was not shown once, in the order in which the tags first occur, and adding
    them again does nothing. Removing a tag leaves it out. A column that is moved stands
    at its new place among the others, which are as before, and moving it back restores
    the view. If one of the places holds no column then the first such place is named and
    the view stays as it was. -/
theorem columns_arranged {v : View} (hv : v.Reachable) :
    (∀ tags, ∃ added,
      v.addColumns tags .prepend =
          ({ v with columns := added ++ v.columns }, decide (added ≠ [])) ∧
        (∀ tag, tag ∈ added ↔ tag ∈ tags ∧ tag ∉ v.columns) ∧
        (added.Pairwise fun a b => tags.idxOf a < tags.idxOf b) ∧
        (v.addColumns tags .prepend).1.addColumns tags .prepend =
          ((v.addColumns tags .prepend).1, false)) ∧
    (∀ tag, v.removeColumn tag =
      ({ v with
          columns := v.columns.filter fun column => column ≠ tag
          sort := v.sort.filter fun key => key.name ≠ tag }, decide (tag ∈ v.columns))) ∧
    (∀ source target, (hsource : source < v.columns.length) → target < v.columns.length →
      ∃ w, v.reorderColumns source target = .ok w ∧ v.Moved v.columns[source] target w ∧
        w.reorderColumns target source = .ok v) ∧
    ∀ source target index,
      [source, target].find? (fun place => v.columns.length ≤ place) = some index →
        v.reorderColumns source target = .error (.columnIndex index v.columns.length) ∧
          v.after (.reorderColumns source target) = v := by
  have hsound := hv.sound
  refine ⟨fun tags => ⟨v.unshown tags, ?_, v.mem_unshown tags, v.pairwise_unshown tags,
    v.addColumns_again tags⟩, removeColumn_eq hsound, fun source target hsource htarget => ?_,
    fun source target index hindex => ?_⟩
  · rw [addColumns_prepend]
    congr 1
    rw [Bool.eq_iff_iff, decide_eq_true_eq]
    simp
  · rcases reorderColumns_moved hsound (List.getElem?_eq_getElem hsource) htarget with
      ⟨w, hw, hmoved⟩
    exact ⟨w, hw, hmoved, reorderColumns_back hw⟩
  · have herror := (reorderColumns_eq_error_iff v source target _).mpr ⟨index, hindex, rfl⟩
    refine ⟨herror, ?_⟩
    rw [after_reorderColumns, herror]
    rfl

/-- A tag that is given twice is added once. The first of three columns is put last and
    back again, and a place behind the last one holds no column. -/
theorem columns_arranged_three :
    let v := (View.new ⟨10, by decide⟩).run [.addColumns ["a", "b", "c"] .prepend,
      .setSort "b" (some .asc)]
    v.Reachable ∧
      (v.addColumns ["d", "a", "e", "d"] .prepend).1.columns = ["d", "e", "a", "b", "c"] ∧
      v.removeColumn "b" = ({ v with columns := ["a", "c"], sort := [] }, true) ∧
      (∃ w, v.reorderColumns 0 2 = .ok w ∧ w.columns = ["b", "c", "a"] ∧
        w.reorderColumns 2 0 = .ok v) ∧
      v.reorderColumns 0 3 = .error (.columnIndex 3 3) := by
  intro v
  have hv : v.Reachable := .new _ _
  rcases columns_arranged hv with ⟨_, hremove, hmove, hfail⟩
  rcases hmove 0 2 (by decide) (by decide) with ⟨w, hw, _, hback⟩
  have hcolumns : w.columns = ["b", "c", "a"] := by
    have hmoved : v.reorderColumns 0 2 = .ok { v with columns := ["b", "c", "a"] } := by decide
    rw [hmoved, Except.ok.injEq] at hw
    rw [← hw]
  refine ⟨hv, by decide, ?_, ⟨w, hw, hcolumns, hback⟩, (hfail 0 3 3 (by decide)).1⟩
  rw [hremove]
  decide

end View

end TagCatalog
