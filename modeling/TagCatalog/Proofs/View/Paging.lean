import TagCatalog.Proofs.Query.Page
import TagCatalog.Proofs.View.Frame
import TagCatalog.View.Request

/-!
# Paging Through a View

Which page a view comes to when only a row of it is known.

There are two ways to get there. A request that is read names a first row and
maybe a size, and the view that shows it has to be on the page where that row is.
A view whose page size is changed knows the row that was on top and has to keep it
in sight. Both divide, and `Page.holding_shows` says that the row is there
whatever the numbers are, also when the number of the first row was cut off.

The first way undoes what a view writes about its page. It gives the same page
again as long as the first row could be numbered, and only then. While an edit is
open a view writes no row, and so the first page is found.

The second way can be gone many times. Each time the page can only come to begin
earlier, and it does not if all sizes divide its first row.

Nothing else changes the size of a page. `page_size_run` follows the size through
any run.

## Main definitions

* `Action.sizeAfter`: The page size that an action leaves.

## Theorems

* `page_size_after`, `page_size_run`: Which page size an action and a run leave.
* `page_resizings`: The page after its size was changed several times.
* `page_of_written`: The page of a request with limit and offset of a view.
* `paging_keeps_row`: Rows stay in sight, and pages are found again.
-/

namespace TagCatalog

/-- The page size that an action leaves. -/
def Action.sizeAfter (size : PageSize) : Action → PageSize
  | setPageSize chosen => chosen
  | _ => size

namespace View

theorem setFilter_page (v : View) (tag : String) (ps : List Predicate) :
    (v.setFilter tag ps).page = v.page := by
  unfold setFilter
  split <;> rfl

theorem page_after_layout (v : View) (action : Action) (h : action.IsLayout) :
    (v.after action).page = v.page := by
  rcases after_layout v action h with ⟨columns, sort, hafter⟩
  rw [hafter]

theorem page_size_after (v : View) (action : Action) :
    (v.after action).page.size = action.sizeAfter v.page.size := by
  cases action with
  | setFilter tag ps => exact congrArg Page.size (v.setFilter_page tag ps)
  | addColumns tags policy => cases policy <;> rfl
  -- Whether or not they find something to change, these leave the page alone.
  | removeColumn | setSort | reorderColumns =>
    exact congrArg Page.size (v.page_after_layout _ trivial)
  | beginEdit tag =>
    show (v.beginEdit tag).1.page.size = v.page.size
    unfold beginEdit
    split <;> rfl
  | saveEdit schema =>
    rw [after_saveEdit]
    -- Conditions are saved, and if they are not then nothing is.
    cases h : v.saveEdit schema with
    | error e => rfl
    | ok w =>
      rcases (saveEdit_eq_ok_iff v w schema).mp h with ⟨edit, _, _, rfl⟩
      exact congrArg Page.size (v.setFilter_page edit.tag _)
  | cancelEdit =>
    show v.cancelEdit.1.page.size = v.page.size
    unfold cancelEdit
    split <;> rfl
  | clearFilter | clearAllFilters | replace | setPage | nextPage | previousPage | setPageSize => rfl

theorem page_size_run (v : View) (actions : List Action) :
    (v.run actions).page.size = actions.foldl Action.sizeAfter v.page.size := by
  -- On the actions, for every view, since each of them leaves another one.
  induction actions generalizing v with
  | nil => rfl
  | cons action actions ih =>
    rw [List.foldl_cons, ← page_size_after]
    exact ih (v.after action)

theorem page_resizings (v : View) (sizes : List PageSize) :
    (v.run (sizes.map .setPageSize)).page = sizes.foldl Page.resize v.page := by
  induction sizes generalizing v with
  | nil => rfl
  | cons size sizes ih => exact ih (v.after (.setPageSize size))

/-- A view writes its first row unless an edit is open. -/
theorem page_of_written (v : View) (a : Addressing) (q : Query) (default : PageSize)
    (hlimit : q.options.limit = (v.pageSettings a).options.limit)
    (hoffset : q.options.offset = (v.pageSettings a).options.offset) :
    q.page default =
      if v.edit.isSome then ⟨0, v.page.size⟩ else Page.holding v.page.offset v.page.size := by
  unfold Query.page
  rw [hlimit, hoffset]
  simp only [pageSettings]
  split
  · rw [Option.getD_none, Page.holding, UInt64.zero_div]
  · rfl

/-- A row stays in sight, whether its page is asked for by a request or looked for
    in pages of another size. So a page is found again by what a view writes of it
    if and only if its first row can be numbered, and a page that is resized several
    times moves towards the beginning or not at all. -/
theorem paging_keeps_row :
    (∀ (q : Query) (default : PageSize),
      (q.page default).size =
          (match q.options.limit with
          | some (.rows n) => n
          | _ => default) ∧
        (q.page default).IsNumbered ∧
        (q.page default).offset.toNat =
          (q.page default).index.toNat * (q.page default).size.rows.toNat ∧
        (q.page default).Shows (q.options.offset.getD 0)) ∧
    (∀ (v : View) (size : PageSize), ∃ page, v.after (.setPageSize size) = { v with page } ∧
      page.size = size ∧ page.IsNumbered ∧
      page.offset.toNat = page.index.toNat * page.size.rows.toNat ∧
      page.Shows v.page.offset) ∧
    (∀ (v : View) (a : Addressing) (q : Query) (default : PageSize),
      q.options.limit = (v.pageSettings a).options.limit →
      q.options.offset = (v.pageSettings a).options.offset →
        (v.edit = none → (q.page default = v.page ↔ v.page.IsNumbered)) ∧
        (v.edit ≠ none → q.page default = ⟨0, v.page.size⟩)) ∧
    ∀ (v : View) (sizes : List PageSize),
      (v.run (sizes.map .setPageSize)).page.offset ≤ v.page.offset ∧
      ((∀ size ∈ sizes, size.rows.toNat ∣ v.page.offset.toNat) →
        (v.run (sizes.map .setPageSize)).page.offset = v.page.offset) := by
  refine ⟨fun q default => ?_, fun v size => ?_, fun v a q default hlimit hoffset => ?_,
    fun v sizes => ?_⟩
  · have hnumbered : (q.page default).IsNumbered := Page.holding_isNumbered _ _
    exact ⟨rfl, hnumbered, (Page.isNumbered_iff _).mp hnumbered, Page.holding_shows _ _⟩
  · have hnumbered : (v.page.resize size).IsNumbered := Page.holding_isNumbered _ _
    exact ⟨v.page.resize size, rfl, rfl, hnumbered, (Page.isNumbered_iff _).mp hnumbered,
      Page.holding_shows _ _⟩
  · have hpage := page_of_written v a q default hlimit hoffset
    constructor
    · intro hopen
      rw [hpage, hopen]
      exact v.page.holding_offset_eq_iff
    · intro hopen
      rw [hpage, if_pos (Option.isSome_iff_ne_none.mpr hopen)]
  · rw [page_resizings]
    exact ⟨v.page.offset_foldl_resize_le sizes, v.page.offset_foldl_resize_of_dvd sizes⟩

/-- A page whose first row cannot be numbered begins with the greatest row that can.
    Sizes that divide its number keep it on top, and then the page is found again. -/
theorem paging_keeps_row_greatest :
    let a : Addressing := ⟨"h/", .empty, .utc, {}, none⟩
    let v := (View.new ⟨25, by decide⟩).run [.setPage Word.greatest]
    let sizes : List PageSize := [⟨15, by decide⟩, ⟨255, by decide⟩]
    let w := v.run (sizes.map .setPageSize)
    w.page.offset = Word.greatest ∧
      ({ options := (w.pageSettings a).options } : Query).page ⟨10, by decide⟩ = w.page ∧
      ({ options := (v.pageSettings a).options } : Query).page ⟨10, by decide⟩ ≠ v.page := by
  intro a v sizes w
  have hgreatest : v.page.offset = Word.greatest := by decide +kernel
  rcases paging_keeps_row with ⟨_, _, hwritten, hresized⟩
  have hkept : w.page.offset = v.page.offset :=
    (hresized v sizes).2 (by rw [hgreatest]; decide +kernel)
  refine ⟨hkept.trans hgreatest, ?_, fun h => ?_⟩
  · have hnumbered : w.page.IsNumbered := by
      rw [Page.IsNumbered]
      decide +kernel
    exact ((hwritten w a _ _ rfl rfl).1 rfl).mpr hnumbered
  · have hnumbered : v.page.IsNumbered := ((hwritten v a _ _ rfl rfl).1 rfl).mp h
    rw [Page.IsNumbered] at hnumbered
    exact absurd hnumbered (by decide +kernel)

end View

end TagCatalog
