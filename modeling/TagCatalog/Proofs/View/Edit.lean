import TagCatalog.Proofs.Data.OrderedMap
import TagCatalog.View.Action
import TagCatalog.View.Request

/-!
# Requests during an Edit

No request depends on the conditions that are being edited.

While an edit is open its tag is excluded from every address. Excluding a tag
comes before anything else that is done with a filter, so the conditions of the
tag are neither written nor looked at: `address?_erase` says that the address is
the one of the filter without the tag, and where that cannot be written this one
fails in the same way. The position of the tag among the others does not count
either, because separators stand between the conditions that are written.

The page is cut out where the rows are asked for, so that turning it has no
effect until the edit is over.

`View.AgreesBut` relates the views that differ in no more than that. It is kept
by all that a person does to the conditions of the tag, so a whole edit can be
put between the two views.

## Main definitions

* `View.AgreesBut`: Views that differ in the conditions of a tag and the page.
* `View.SameRequests`: Views that ask for the same.
* `Action.IsWithin`: Actions on the conditions of a tag and on the page.

## Theorems

* `address?_erase`: The conditions of an excluded tag are not looked at.
* `sameRequests_of_editing`: Views that are the same but for the edit ask for the
  same.
* `agreesBut_after`, `agreesBut_run`: What is done within an edit.
* `edit_isolated`: Nothing that is done within an edit changes a request.
-/

namespace TagCatalog

open OrderedMap

namespace Addressing

variable {a : Addressing} {tag : String}

theorem conditions_erase (h : a.excluded = some tag) (filter : Filter) :
    a.conditions (filter.erase tag) = a.conditions filter := by
  simp only [conditions, erase, eraseEntries]
  induction filter.entries with
  | nil => rfl
  | cons e es ih =>
    rcases e with ⟨t, ps⟩
    by_cases ht : t = tag
    · -- Neither side has anything of the excluded tag.
      rw [List.filter_cons_of_neg (by simp [ht]), List.flatMap_cons, ih]
      simp only [h, ht, if_true, List.nil_append]
    · rw [List.filter_cons_of_pos (by simp [ht]), List.flatMap_cons, List.flatMap_cons, ih]

/-- The conditions of an excluded tag are not looked at. -/
theorem address?_erase (h : a.excluded = some tag) (filter : Filter) (columns : List String)
    (sort : List SortKey) :
    a.address? (filter.erase tag) columns sort = a.address? filter columns sort := by
  unfold address? clause?
  rw [conditions_erase h]

end Addressing

namespace View

/-- Two views differ at most in the conditions of a tag, the page that is shown,
    and what is remembered of an edit. -/
structure AgreesBut (tag : String) (v w : View) : Prop where
  columns : v.columns = w.columns
  sort : v.sort = w.sort
  size : v.page.size = w.page.size
  filter : v.filter.erase tag = w.filter.erase tag

/-- Two views ask for the same, or fail to ask in the same way. -/
structure SameRequests (v w : View) : Prop where
  bookmark : ∀ a, v.bookmark? a = w.bookmark? a
  rows : ∀ a, v.rows? a = w.rows? a
  count : ∀ a, v.count? a = w.count? a
  range : ∀ a tag mode, v.range? a tag mode = w.range? a tag mode

section Editing

variable {tag : String} {v w : View}

theorem address?_of_agreesBut {a : Addressing} (h : AgreesBut tag v w)
    (ha : a.excluded = some tag) (columns : List String) (sort : List SortKey) :
    View.address? a v.filter columns sort = View.address? a w.filter columns sort := by
  unfold View.address?
  rw [← a.address?_erase ha v.filter, h.filter, a.address?_erase ha w.filter]

theorem settings_eq (hv : v.editing = some tag) (hw : w.editing = some tag) (a : Addressing) :
    v.settings a = w.settings a := by
  rw [settings, settings, hv, hw]

/-- While the same tag is edited, no page but only its size counts. -/
theorem pageSettings_eq (hv : v.editing = some tag) (hw : w.editing = some tag)
    (hsize : v.page.size = w.page.size) (a : Addressing) : v.pageSettings a = w.pageSettings a := by
  have hopen : ∀ u : View, u.editing = some tag → u.edit.isSome = true := by
    intro u hu
    rw [editing, Option.map_eq_some_iff] at hu
    rcases hu with ⟨edit, hedit, _⟩
    rw [hedit, Option.isSome_some]
  rw [pageSettings, pageSettings, settings_eq hv hw, hsize, if_pos (hopen v hv),
    if_pos (hopen w hw)]

/-- Views that edit the same tag and are the same but for the edit ask for the
    same. -/
theorem sameRequests_of_editing (hv : v.editing = some tag) (hw : w.editing = some tag)
    (h : AgreesBut tag v w) : SameRequests v w := by
  have hrange : ∀ a t mode, v.range? a t mode = w.range? a t mode := by
    intro a t mode
    rw [range?, range?, settings_eq hv hw]
    exact address?_of_agreesBut h hw _ _
  refine ⟨fun a => ?_, fun a => ?_, fun a => hrange a idColumn .count, hrange⟩
  · rw [bookmark?, bookmark?, pageSettings_eq hv hw h.size, h.columns, h.sort]
    exact address?_of_agreesBut h hw _ _
  · rw [rows?, rows?, pageSettings_eq hv hw h.size, h.columns, h.sort]
    exact address?_of_agreesBut h hw _ _

end Editing

end View

/-- Actions on the conditions of a tag, and those that turn the page. -/
def Action.IsWithin (tag : String) : Action → Prop
  | setFilter t _ | clearFilter t => t = tag
  | setPage _ | nextPage | previousPage => True
  | _ => False

namespace View

section Run

variable {tag : String} {u v w : View}

theorem AgreesBut.trans (h : AgreesBut tag u v) (h' : AgreesBut tag v w) : AgreesBut tag u w :=
  ⟨h.columns.trans h'.columns, h.sort.trans h'.sort, h.size.trans h'.size,
    h.filter.trans h'.filter⟩

theorem agreesBut_of_filter (tag : String) (v : View) (filter : Filter)
    (h : filter.erase tag = v.filter.erase tag) : AgreesBut tag { v with filter } v :=
  ⟨rfl, rfl, rfl, h⟩

/-- What is done within an edit leaves it open and leaves the rest alone. -/
theorem agreesBut_after {action : Action} (h : action.IsWithin tag) (v : View) :
    AgreesBut tag (v.after action) v ∧ (v.after action).editing = v.editing := by
  cases action with
  | setFilter t ps =>
    rw [Action.IsWithin] at h
    subst h
    show AgreesBut t (v.setFilter t ps) v ∧ (v.setFilter t ps).editing = v.editing
    unfold setFilter
    by_cases hps : ps.isEmpty = true
    · rw [if_pos hps]
      exact ⟨agreesBut_of_filter t v _ (erase_erase v.filter t), rfl⟩
    · rw [if_neg hps]
      exact ⟨agreesBut_of_filter t v _ (erase_insert v.filter t ps), rfl⟩
  | clearFilter t =>
    rw [Action.IsWithin] at h
    subst h
    exact ⟨agreesBut_of_filter t v _ (erase_erase v.filter t), rfl⟩
  | setPage | nextPage | previousPage => exact ⟨⟨rfl, rfl, rfl, rfl⟩, rfl⟩
  | clearAllFilters | replace | addColumns | removeColumn | setSort | reorderColumns
  | setPageSize | beginEdit | saveEdit | cancelEdit => exact absurd h id

theorem agreesBut_run (actions : List Action) (h : ∀ action ∈ actions, action.IsWithin tag)
    (v : View) : AgreesBut tag (v.run actions) v ∧ (v.run actions).editing = v.editing := by
  induction actions generalizing v with
  | nil => exact ⟨⟨rfl, rfl, rfl, rfl⟩, rfl⟩
  | cons action actions ih =>
    rcases agreesBut_after (h action List.mem_cons_self) v with ⟨hfirst, hedit⟩
    rcases ih (fun x hx => h x (List.mem_cons_of_mem action hx)) (v.after action) with
      ⟨hrest, hedit'⟩
    exact ⟨hrest.trans hfirst, hedit'.trans hedit⟩

end Run

/-- Edits are isolated. Two views that edit the same tag and are the same but for
    its conditions and the page ask for the same, and so does a view after
    anything that is done within the edit. -/
theorem edit_isolated (v w : View) (tag : String) (hv : v.editing = some tag)
    (hw : w.editing = some tag) (hcolumns : v.columns = w.columns) (hsort : v.sort = w.sort)
    (hsize : v.page.size = w.page.size) (hfilter : v.filter.erase tag = w.filter.erase tag) :
    SameRequests v w ∧
      ∀ actions : List Action, (∀ action ∈ actions, action.IsWithin tag) →
        SameRequests (v.run actions) w := by
  have h : AgreesBut tag v w := ⟨hcolumns, hsort, hsize, hfilter⟩
  refine ⟨sameRequests_of_editing hv hw h, fun actions hactions => ?_⟩
  rcases agreesBut_run actions hactions v with ⟨hrun, hedit⟩
  exact sameRequests_of_editing (hedit.trans hv) hw (hrun.trans h)

/-- A condition that lacks its second bound stops no request, and neither is it
    seen that the page was turned. -/
theorem edit_isolated_half_typed :
    let page : Page := ⟨0, ⟨10, by decide⟩⟩
    let v : View :=
      { filter := .ofList [("x", [.tagged])], columns := ["name"], page,
        edit := some ⟨"y", none, 0⟩ }
    let w : View :=
      { filter := .ofList [("y", [⟨.between, ["1"]⟩]), ("x", [.tagged])], columns := ["name"],
        page := page.next, edit := some ⟨"y", some (0, [.tagged]), 3⟩ }
    let a : Addressing := ⟨"h/", .empty, .utc, {}, some "x"⟩
    let rows := "h/x(name;id)?versions=latest&limit=10"
    v.rows? a = .ok rows ∧ w.rows? a = .ok rows ∧
      w.bookmark? a = .ok "h/x(name)?versions=latest&limit=10" ∧
      w.count? a = .ok "h/x(id)?versions=latest&range=count" ∧
      w.range? a "y" .values = .ok "h/x(y)?versions=latest&range=values" ∧
      (w.run [.nextPage, .setFilter "y" [⟨.less, []⟩]]).rows? a = .ok rows := by
  intro page v w a rows
  have hbookmark : v.bookmark? a = .ok "h/x(name)?versions=latest&limit=10" := by decide +kernel
  have hrows : v.rows? a = .ok rows := by decide +kernel
  have hcount : v.count? a = .ok "h/x(id)?versions=latest&range=count" := by decide +kernel
  have hrange : v.range? a "y" .values = .ok "h/x(y)?versions=latest&range=values" := by
    decide +kernel
  rcases edit_isolated w v "y" rfl rfl rfl rfl rfl (by decide) with ⟨hsame, hrun⟩
  have hwithin : ∀ action ∈ [Action.nextPage, .setFilter "y" [⟨.less, []⟩]],
      action.IsWithin "y" := by
    intro action haction
    rcases List.mem_cons.mp haction with rfl | haction
    · exact trivial
    · rw [List.mem_singleton.mp haction]
      exact rfl
  exact ⟨hrows, (hsame.rows a).trans hrows, (hsame.bookmark a).trans hbookmark,
    (hsame.count a).trans hcount, (hsame.range a "y" .values).trans hrange,
    ((hrun _ hwithin).rows a).trans hrows⟩

end View

end TagCatalog
