import TagCatalog.Proofs.Data.Distinct
import TagCatalog.Proofs.Data.OrderedMap
import TagCatalog.View.Action

/-!
# What Actions Leave Alone

Which parts of a view an action can change, said once for all actions of a
kind.

Most statements about views follow one part of a view through a run, and many
actions have nothing to do with that part. Those on columns and sort keys are the
largest such kind, since no other part of a view depends on the layout.

An action that can fail is a computation of the new view. When it fails the old
view stays, so `after_of_except` gives the view after such an action without a
word on why it failed. Moving a column is one, and why it fails is said apart: the
first of its two places that holds no column is named.

Edits reach over time, and so it matters what passes from their beginning to their
end. An edit begins only if none is open, and it remembers what its tag has and where
it stands. It is saved only if what will be kept was checked.

## Main definitions

* `Action.IsLayout`: Actions on columns and sort keys.
* `View.unshown`: The tags that adding them makes columns of.

## Theorems

* `after_of_except`: The view after an action that may fail.
* `after_reorderColumns`, `after_saveEdit`: The two actions that may.
* `mem_unshown`, `addColumns_prepend`: Which columns are added.
* `reorderColumns_eq_ok_iff`, `reorderColumns_eq_error_iff`: When a column is moved.
* `beginEdit_of_edit`, `beginEdit_edit`: When an edit begins, and what it remembers.
* `saveEdit_eq_ok_iff`: When an edit is saved, and what is kept.
* `after_layout`: Actions on columns and sort keys leave the rest alone.
-/

namespace TagCatalog

open OrderedMap

/-- Actions on columns and sort keys that show the rest of the view unchanged. -/
def Action.IsLayout : Action → Prop
  | addColumns _ .prepend | removeColumn _ | setSort _ _ | reorderColumns _ _ => True
  | _ => False

namespace View

/-- The view after an action that computes a view, or fails to and leaves the view as
    it was. -/
theorem after_of_except (v : View) (action : Action) (x : Except ViewError View)
    (h : action.perform v = x.map fun w => (w, none)) : v.after action = x.toOption.getD v := by
  rw [after, h]
  cases x <;> rfl

theorem after_reorderColumns (v : View) (source target : Nat) :
    v.after (.reorderColumns source target) = (v.reorderColumns source target).toOption.getD v :=
  after_of_except v _ _ rfl

theorem after_saveEdit (v : View) (schema : Schema) :
    v.after (.saveEdit schema) = (v.saveEdit schema).toOption.getD v :=
  after_of_except v _ _ rfl

/-- Of some tags those that are not shown yet, each once. -/
def unshown (v : View) (tags : List String) : List String :=
  distinct (tags.filter fun tag => !v.columns.contains tag)

theorem mem_unshown (v : View) (tags : List String) (tag : String) :
    tag ∈ v.unshown tags ↔ tag ∈ tags ∧ tag ∉ v.columns := by
  simp [unshown, mem_distinct]

theorem addColumns_prepend (v : View) (tags : List String) :
    v.addColumns tags .prepend =
      ({ v with columns := v.unshown tags ++ v.columns }, !(v.unshown tags).isEmpty) := rfl

/-- A column is moved if there is one to move and a place to move it to. -/
theorem reorderColumns_eq_ok_iff (v w : View) (source target : Nat) :
    v.reorderColumns source target = .ok w ↔ ∃ column, v.columns[source]? = some column ∧
      target < v.columns.length ∧
      w = { v with columns := (v.columns.eraseIdx source).insertIdx target column } := by
  unfold reorderColumns
  cases v.columns[source]? with
  | none => exact iff_of_false (nomatch ·) fun ⟨_, hcolumn, _⟩ => nomatch hcolumn
  | some column =>
    simp only [Option.some.injEq, exists_eq_left']
    split
    · next htarget =>
      rw [Except.ok.injEq]
      exact ⟨fun h => ⟨htarget, h.symm⟩, fun h => h.2.symm⟩
    · next htarget => exact iff_of_false (nomatch ·) fun h => htarget h.1

/-- Otherwise the first place without a column is named. -/
theorem reorderColumns_eq_error_iff (v : View) (source target : Nat) (e : ViewError) :
    v.reorderColumns source target = .error e ↔ ∃ index,
      [source, target].find? (fun place => v.columns.length ≤ place) = some index ∧
        e = .columnIndex index v.columns.length := by
  unfold reorderColumns
  split
  · next hcolumn =>
    -- Nothing is there to be moved, and the other place is not even looked at.
    have hsource := List.getElem?_eq_none_iff.mp hcolumn
    simp [hsource, eq_comm]
  · next column hcolumn =>
    -- The first place holds a column, so only the second one can be named.
    have hsource := (List.getElem?_eq_some_iff.mp hcolumn).1
    have hplace : decide (v.columns.length ≤ source) = false := decide_eq_false (by omega)
    split
    · next htarget =>
      have htarget' : decide (v.columns.length ≤ target) = false := decide_eq_false (by omega)
      simp [hplace, htarget']
    · next htarget =>
      have htarget' : decide (v.columns.length ≤ target) = true := decide_eq_true (by omega)
      simp [hplace, htarget', eq_comm]

/-- No edit begins while another one is open. -/
theorem beginEdit_of_edit {v : View} {edit : Edit} (tag : String) (hedit : v.edit = some edit) :
    v.beginEdit tag = (v, false) := by
  unfold beginEdit
  rw [hedit]

/-- An edit that begins remembers the conditions of its tag and where it stands. -/
theorem beginEdit_edit {v : View} (tag : String) (hopen : v.edit = none) :
    ∃ saved, (v.beginEdit tag).1 =
        { v with page := { v.page with index := 0 }, edit := some ⟨tag, saved, v.page.index⟩ } ∧
      saved.map Prod.snd = v.filter.get? tag ∧ saved.map Prod.fst = v.filter.position? tag := by
  unfold beginEdit
  rw [hopen]
  refine ⟨_, rfl, ?_⟩
  cases hget : v.filter.get? tag with
  | none =>
    rw [position?_eq_none hget]
    exact ⟨rfl, rfl⟩
  | some ps =>
    rcases exists_split hget with ⟨front, back, hsplit⟩
    rw [position?_of_split hsplit]
    exact ⟨rfl, rfl⟩

/-- An edit is saved when all its completed conditions fit, and then they are kept. -/
theorem saveEdit_eq_ok_iff (v w : View) (schema : Schema) :
    v.saveEdit schema = .ok w ↔ ∃ edit, v.edit = some edit ∧
      (∀ p ∈ completed ((v.filter.get? edit.tag).getD []), schema.misfit? edit.tag p = none) ∧
      w = { v.setFilter edit.tag (completed ((v.filter.get? edit.tag).getD [])) with
        edit := none } := by
  unfold saveEdit
  cases v.edit with
  | none => exact iff_of_false (nomatch ·) fun ⟨_, hedit, _⟩ => nomatch hedit
  | some edit =>
    simp only [Option.some.injEq, exists_eq_left']
    rw [← List.findSome?_eq_none_iff]
    split
    · next reason hfind => exact iff_of_false (nomatch ·) fun h => nomatch hfind.symm.trans h.1
    · next hfind =>
      rw [Except.ok.injEq]
      exact ⟨fun h => ⟨hfind, h.symm⟩, fun h => h.2.symm⟩

/-- Actions on columns and sort keys leave the rest of the view alone. -/
theorem after_layout (v : View) (action : Action) (h : action.IsLayout) :
    ∃ columns sort, v.after action = { v with columns, sort } := by
  cases action with
  | addColumns tags policy =>
    cases policy with
    | prepend => exact ⟨_, v.sort, rfl⟩
    | replaceAll => exact absurd h id
  | removeColumn tag =>
    show ∃ columns sort, (v.removeColumn tag).1 = { v with columns, sort }
    unfold removeColumn
    split <;> exact ⟨_, _, rfl⟩
  | setSort tag direction =>
    show ∃ columns sort, (v.setSort tag direction).1 = { v with columns, sort }
    unfold setSort
    split <;> exact ⟨_, _, rfl⟩
  | reorderColumns source target =>
    rw [after_reorderColumns]
    unfold reorderColumns
    -- Only the columns are moved, and not even they when a place is out of range.
    split
    · exact ⟨_, _, rfl⟩
    · split <;> exact ⟨_, _, rfl⟩
  | setFilter | clearFilter | clearAllFilters | replace | setPage | nextPage | previousPage
  | setPageSize | beginEdit | saveEdit | cancelEdit => exact absurd h id

end View

end TagCatalog
