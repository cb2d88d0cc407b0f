import TagCatalog.Proofs.Data.OrderedMap
import TagCatalog.Proofs.View.Frame
import TagCatalog.View.Request

/-!
# Giving Up an Edit

What a view is after an edit was begun, worked on and given up.

An edit remembers the conditions of its tag and the position the tag had among
the tags with conditions. Anything may be done before it is given up. Tags are
removed and come again at the end, so by then the remembered position can mean
another place, or none when too few tags are left. The statement is therefore
made in two halves. Whatever was done, the tag has its old conditions again, it
stands where it stood or at the end when there are too few other tags, and the
other tags are as they were left. If moreover nothing was done to the other tags,
then the filter as a whole is the one from before the edit, in the same order.

The first half holds of every edit that is open, however it came about, and
`View.PutsBack` says what it is. What ties it to the view from before the edit is
that an open edit is changed by no action but those that end it. Those are saving
and giving up, and showing other columns in place of the whole view.

## Main definitions

* `Action.KeepsEdit`: Actions that end no edit.
* `Action.SparesOthers`: Those that change the conditions of one tag at most.
* `View.PutsBack`: What giving up an edit does.

## Theorems

* `cancelEdit_putsBack`: What giving up an edit does.
* `PutsBack.filter_eq`: A filter that was changed at the tag only is as before.
* `after_of_keepsEdit`, `run_of_keepsEdit`: What can be done while an edit is open.
* `edit_run`: An edit stays open as it was begun.
* `cancelEdit_begun`: What giving up an edit does, from its beginning.
* `cancel_restores`: Giving up an edit restores the conditions of its tag.
-/

namespace TagCatalog

open OrderedMap

/-- Actions that end no edit. -/
def Action.KeepsEdit : Action → Prop
  | saveEdit _ | cancelEdit | replace _ | addColumns _ .replaceAll => False
  | _ => True

/-- Actions that end no edit and change the conditions of one tag at most. -/
def Action.SparesOthers (tag : String) : Action → Prop
  | setFilter t _ | clearFilter t => t = tag
  | clearAllFilters | saveEdit _ | cancelEdit | replace _ | addColumns _ .replaceAll => False
  | _ => True

namespace View

/-- Giving up an edit puts back what it remembers, leaves all other tags as they
    are, and closes the edit. -/
structure PutsBack (edit : Edit) (v w : View) : Prop where
  conditions : w.filter.get? edit.tag = edit.saved.map Prod.snd
  /-- The tag comes to its old position, or to the end if there are too few other
      tags. -/
  position : ∀ i, edit.saved.map Prod.fst = some i →
    w.filter.position? edit.tag = some (min i (v.filter.erase edit.tag).size)
  /-- The conditions of all other tags, and their order. -/
  others : w.filter.erase edit.tag = v.filter.erase edit.tag
  columns : w.columns = v.columns
  sort : w.sort = v.sort
  page : w.page = { v.page with index := edit.pageIndex }
  closed : w.edit = none

variable {v : View} {edit : Edit}

theorem cancelEdit_of_saved {i : Nat} {ps : List Predicate} (hedit : v.edit = some edit)
    (hsaved : edit.saved = some (i, ps)) :
    v.cancelEdit = ({ v with
      filter := v.filter.place i edit.tag ps
      page := { v.page with index := edit.pageIndex }
      edit := none }, true) := by
  unfold cancelEdit
  rw [hedit]
  simp only [hsaved]

theorem cancelEdit_of_unsaved (hedit : v.edit = some edit) (hsaved : edit.saved = none) :
    v.cancelEdit = ({ v with
      filter := v.filter.erase edit.tag
      page := { v.page with index := edit.pageIndex }
      edit := none }, true) := by
  unfold cancelEdit
  rw [hedit]
  simp only [hsaved]

/-- An open edit can be given up, and that puts back what it remembers. -/
theorem cancelEdit_putsBack (hedit : v.edit = some edit) :
    v.cancelEdit.2 = true ∧ PutsBack edit v v.cancelEdit.1 := by
  cases hsaved : edit.saved with
  | none =>
    rw [cancelEdit_of_unsaved hedit hsaved]
    refine ⟨rfl, ?_, fun i h => ?_, erase_erase v.filter edit.tag, rfl, rfl, rfl, rfl⟩
    · rw [hsaved]
      exact get?_erase v.filter edit.tag
    · rw [hsaved] at h
      exact absurd h.symm (Option.some_ne_none i)
  | some saved =>
    rcases saved with ⟨i, ps⟩
    rw [cancelEdit_of_saved hedit hsaved]
    refine ⟨rfl, ?_, fun j h => ?_, erase_place v.filter edit.tag ps i, rfl, rfl, rfl, rfl⟩
    · rw [hsaved]
      exact get?_place v.filter edit.tag ps i
    · rw [hsaved, Option.map_some, Option.some.injEq] at h
      rw [← h]
      exact position?_place v.filter edit.tag ps i

/-- If an edit remembers what a filter has at its tag, and the other tags are as
    in that filter, then giving up the edit brings the filter back. -/
theorem PutsBack.filter_eq {w : View} {filter : Filter} (hback : PutsBack edit v w)
    (hconditions : edit.saved.map Prod.snd = filter.get? edit.tag)
    (hposition : edit.saved.map Prod.fst = filter.position? edit.tag)
    (hothers : v.filter.erase edit.tag = filter.erase edit.tag) : w.filter = filter := by
  have hget := hback.conditions.trans hconditions
  refine eq_of_erase_eq hget ?_ (hback.others.trans hothers)
  cases hsaved : edit.saved with
  | none =>
    rw [hsaved] at hconditions
    rw [position?_eq_none (hget.trans hconditions.symm), position?_eq_none hconditions.symm]
  | some saved =>
    rw [hsaved] at hposition
    -- The old place is not behind the end, because the other tags are all there.
    have hle := le_size_erase hposition.symm
    rw [hback.position saved.1 (by rw [hsaved, Option.map_some]), ← hposition, hothers,
      Nat.min_eq_left hle, Option.map_some]

/-- What an action can do to a view whose edit stays open. -/
theorem after_of_keepsEdit {action : Action} (haction : action.KeepsEdit)
    (hedit : v.edit = some edit) :
    ∃ filter columns sort page, v.after action = { v with filter, columns, sort, page } ∧
      ∀ tag, action.SparesOthers tag → filter.erase tag = v.filter.erase tag := by
  by_cases hlayout : action.IsLayout
  · rcases after_layout v action hlayout with ⟨columns, sort, h⟩
    exact ⟨v.filter, columns, sort, v.page, h, fun _ _ => rfl⟩
  · cases action with
    | setFilter t ps =>
      show ∃ filter columns sort page, v.setFilter t ps = { v with filter, columns, sort, page } ∧ _
      unfold setFilter
      -- Without conditions the tag is taken out, else they replace what it had.
      split
      · exact ⟨_, _, _, _, rfl, fun tag h => h ▸ erase_erase v.filter t⟩
      · exact ⟨_, _, _, _, rfl, fun tag h => h ▸ erase_insert v.filter t ps⟩
    | clearFilter t => exact ⟨_, _, _, _, rfl, fun tag h => h ▸ erase_erase v.filter t⟩
    | clearAllFilters => exact ⟨_, _, _, _, rfl, fun tag h => absurd h id⟩
    | setPage | nextPage | previousPage | setPageSize => exact ⟨_, _, _, _, rfl, fun _ _ => rfl⟩
    | beginEdit t =>
      -- No other edit begins while one is open.
      have hsame : v.after (.beginEdit t) = v := congrArg Prod.fst (beginEdit_of_edit t hedit)
      exact ⟨_, _, _, _, hsame, fun _ _ => rfl⟩
    | addColumns tags policy =>
      cases policy with
      | prepend => exact absurd trivial hlayout
      | replaceAll => exact absurd haction id
    | removeColumn | setSort | reorderColumns => exact absurd trivial hlayout
    | replace | saveEdit | cancelEdit => exact absurd haction id

/-- What a run can do to a view whose edit stays open. -/
theorem run_of_keepsEdit (actions : List Action) (hactions : ∀ action ∈ actions, action.KeepsEdit)
    (hedit : v.edit = some edit) :
    ∃ filter columns sort page, v.run actions = { v with filter, columns, sort, page } ∧
      ∀ tag, (∀ action ∈ actions, action.SparesOthers tag) →
        filter.erase tag = v.filter.erase tag := by
  induction actions generalizing v with
  | nil => exact ⟨_, _, _, _, rfl, fun _ _ => rfl⟩
  | cons action actions ih =>
    rcases after_of_keepsEdit (hactions action List.mem_cons_self) hedit with
      ⟨filter, columns, sort, page, hfirst, hspares⟩
    have hopen : (v.after action).edit = some edit := by
      rw [hfirst]
      exact hedit
    rcases ih (fun x hx => hactions x (List.mem_cons_of_mem action hx)) hopen with
      ⟨filter', columns', sort', page', hrest, hspares'⟩
    refine ⟨filter', columns', sort', page', ?_, fun tag h => ?_⟩
    · show (v.after action).run actions = _
      rw [hrest, hfirst]
    · rw [hspares' tag fun x hx => h x (List.mem_cons_of_mem action hx), hfirst]
      exact hspares tag (h action List.mem_cons_self)

/-- An open edit stays as it is until it is ended. -/
theorem edit_run (actions : List Action) (hactions : ∀ action ∈ actions, action.KeepsEdit)
    (hedit : v.edit = some edit) : (v.run actions).edit = some edit := by
  rcases run_of_keepsEdit actions hactions hedit with ⟨_, _, _, _, hrun, _⟩
  rw [hrun]
  exact hedit

-- The two halves together: an edit is worked on and given up, and what it puts back
-- is what the view had when the edit began.
theorem cancelEdit_begun (tag : String) (actions : List Action) (hopen : v.edit = none)
    (hactions : ∀ action ∈ actions, action.KeepsEdit) :
    let left := (v.beginEdit tag).1.run actions
    ∃ saved, saved.map Prod.snd = v.filter.get? tag ∧ saved.map Prod.fst = v.filter.position? tag ∧
      left.cancelEdit.2 = true ∧ PutsBack ⟨tag, saved, v.page.index⟩ left left.cancelEdit.1 := by
  rcases beginEdit_edit tag hopen with ⟨saved, hbegin, hconditions, hposition⟩
  have hedit : (v.beginEdit tag).1.edit = some ⟨tag, saved, v.page.index⟩ := by rw [hbegin]
  exact ⟨saved, hconditions, hposition, cancelEdit_putsBack (edit_run actions hactions hedit)⟩

/-- Giving up an edit restores the conditions of its tag, at the old place if there
    are enough other tags, and leaves everything else as it was made meanwhile. If
    the other tags are as before, which they are when nothing was done to them, the
    filter is the old one and is written as before. -/
theorem cancel_restores (v : View) (tag : String) (actions : List Action)
    (hopen : v.edit = none) (hactions : ∀ action ∈ actions, action.KeepsEdit) :
    let left := (v.beginEdit tag).1.run actions
    let back := left.cancelEdit.1
    left.cancelEdit.2 = true ∧
      back.filter.get? tag = v.filter.get? tag ∧
      (∀ i, v.filter.position? tag = some i →
        back.filter.position? tag = some (min i (left.filter.erase tag).size)) ∧
      back.filter.erase tag = left.filter.erase tag ∧
      back.columns = left.columns ∧ back.sort = left.sort ∧
      back.page = { left.page with index := v.page.index } ∧ back.edit = none ∧
      ((∀ action ∈ actions, action.SparesOthers tag) →
        left.filter.erase tag = v.filter.erase tag) ∧
      (left.filter.erase tag = v.filter.erase tag → back.filter = v.filter ∧
        ∀ a : Addressing,
          (back.settings a).clause? back.filter = (v.settings a).clause? v.filter) := by
  intro left back
  rcases cancelEdit_begun tag actions hopen hactions with
    ⟨saved, hconditions, hposition, hdone, hback⟩
  refine ⟨hdone, hback.conditions.trans hconditions,
    fun i hi => hback.position i (hposition.trans hi), hback.others, hback.columns, hback.sort,
    hback.page, hback.closed, fun hspares => ?_, fun hothers => ?_⟩
  · rcases beginEdit_edit tag hopen with ⟨saved, hbegin, _⟩
    have hedit : (v.beginEdit tag).1.edit = some ⟨tag, saved, v.page.index⟩ := by rw [hbegin]
    rcases run_of_keepsEdit actions hactions hedit with ⟨_, _, _, _, hrun, hothers⟩
    rw [show left = _ from hrun]
    exact (hothers tag hspares).trans (by rw [hbegin])
  · have hfilter : back.filter = v.filter := hback.filter_eq hconditions hposition hothers
    refine ⟨hfilter, fun a => ?_⟩
    -- No edit is open on either side, so neither leaves a tag out.
    have hclosed : back.edit = v.edit := hback.closed.trans hopen.symm
    rw [hfilter, settings, settings, editing, editing, hclosed]

/-- The tag stood in the third place. One other tag is left, so it comes second. -/
theorem cancel_restores_cleared :
    let page : Page := ⟨0, ⟨10, by decide⟩⟩
    let v : View :=
      { filter := .ofList [("x", [.tagged]), ("y", [⟨.absent, []⟩]), ("z", [.tagged])],
        columns := ["name"], page }
    let left := (v.beginEdit "z").1.run [.clearAllFilters, .setFilter "z" [⟨.absent, []⟩],
      .setFilter "y" [.tagged]]
    left.filter.position? "z" = some 0 ∧
      left.cancelEdit.1.filter.get? "z" = some [.tagged] ∧
      left.cancelEdit.1.filter.position? "z" = some 1 := by
  intro page v left
  have hactions : ∀ action ∈ [Action.clearAllFilters, .setFilter "z" [⟨.absent, []⟩],
      .setFilter "y" [.tagged]], action.KeepsEdit := by
    simp [Action.KeepsEdit]
  rcases cancel_restores v "z" _ rfl hactions with ⟨_, hconditions, hposition, _⟩
  exact ⟨rfl, hconditions, hposition 2 rfl⟩

end View

end TagCatalog
