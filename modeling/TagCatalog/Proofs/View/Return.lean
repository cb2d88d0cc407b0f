import TagCatalog.Proofs.View.Cancel
import TagCatalog.Proofs.View.Invariant
import TagCatalog.Proofs.View.Paging

/-!
# The Page After an Edit

Which page is shown when an edit was given up.

An edit goes to the first page and remembers the index of the page that was shown.
Giving it up puts the index back. Conditions that were changed meanwhile do not
matter, nor does paging, but the size of the pages does, because it is not
remembered. An index counts pages of one size. Behind a change of the size it is
put back beside another one and counts other pages, although the change itself was
careful to keep a row in sight.

So the page is the old one exactly if the size is, and whether the row that was on
top is shown at least is a matter of numbers. In smaller pages the old index comes
earlier, and the row is lost once it lies a whole page behind. In larger pages the
index comes later, which loses the row at once.

## Theorems

* `cancelEdit_page`: The page after an edit was given up.
* `cancel_returns_iff`: When the row that was on top is shown again.
* `cancel_loses_row`: An edit that leaves the row.
-/

namespace TagCatalog

namespace View

/-- The index is the one from before the edit, and the size is the one that was
    chosen last. -/
theorem cancelEdit_page {v : View} (tag : String) (actions : List Action) (hopen : v.edit = none)
    (hactions : ∀ action ∈ actions, action.KeepsEdit) :
    ((v.beginEdit tag).1.run actions).cancelEdit.2 = true ∧
      ((v.beginEdit tag).1.run actions).cancelEdit.1.page =
        ⟨v.page.index, actions.foldl Action.sizeAfter v.page.size⟩ := by
  rcases cancelEdit_begun tag actions hopen hactions with ⟨saved, _, _, hdone, hback⟩
  -- Beginning the edit goes to the first page and leaves the size as it is.
  have hsize : (v.beginEdit tag).1.page.size = v.page.size :=
    v.page_size_after (.beginEdit tag)
  refine ⟨hdone, hback.page.trans ?_⟩
  rw [← hsize, ← page_size_run]

/-- Giving up an edit brings back the page that was shown if the page size is as it
    was. Otherwise the index is put back alone, and the row that was on top is shown
    if it does not lie behind the page of that index, and the pages have become no
    larger, unless it is the first row of all or the greatest one. -/
theorem cancel_returns_iff (v : View) (tag : String) (actions : List Action)
    (hopen : v.edit = none) (hactions : ∀ action ∈ actions, action.KeepsEdit)
    (hnumbered : v.page.IsNumbered) :
    let size := actions.foldl Action.sizeAfter v.page.size
    let back := ((v.beginEdit tag).1.run actions).cancelEdit
    back.2 = true ∧ back.1.page = ⟨v.page.index, size⟩ ∧
      (back.1.page = v.page ↔ size = v.page.size) ∧
      (back.1.page.Shows v.page.offset ↔
        v.page.offset.toNat < (v.page.index.toNat + 1) * size.rows.toNat ∧
          (size.rows.toNat ≤ v.page.size.rows.toNat ∨ v.page.index.toNat = 0 ∨
            v.page.offset = Word.greatest)) := by
  intro size back
  rcases cancelEdit_page tag actions hopen hactions with ⟨hdone, hpage⟩
  have hback : back.1.page = ⟨v.page.index, size⟩ := hpage
  refine ⟨hdone, hback, ⟨fun h => ?_, fun h => ?_⟩, ?_⟩
  · rw [← h, hback]
  · rw [hback, h]
  · rw [hback]
    exact v.page.shows_offset_iff size hnumbered

/-- The pages become a little smaller during the edit, and the row is still on the
    page of the old index. -/
theorem cancel_returns_smaller :
    let v := (View.new ⟨25, by decide⟩).run [.setPage 2]
    let actions : List Action := [.setFilter "x" [⟨.eq, []⟩], .nextPage,
      .setPageSize ⟨24, by decide⟩, .clearAllFilters, .previousPage]
    let back := ((v.beginEdit "x").1.run actions).cancelEdit.1
    back.page = ⟨2, ⟨24, by decide⟩⟩ ∧ back.page ≠ v.page ∧ back.page.Shows v.page.offset := by
  intro v actions back
  have hactions : ∀ action ∈ actions, action.KeepsEdit := by
    simp [actions, Action.KeepsEdit]
  have hnumbered : v.page.IsNumbered := by
    rw [Page.IsNumbered]
    decide +kernel
  rcases cancel_returns_iff v "x" actions rfl hactions hnumbered with ⟨_, hpage, hsame, hshows⟩
  exact ⟨hpage, fun h => absurd (hsame.mp h) (by decide +kernel), hshows.mpr (by decide +kernel)⟩

/-- In smaller pages the old index comes too early for the row that was on top. -/
theorem cancel_loses_row :
    let v := (View.new ⟨25, by decide⟩).run [.setPage 2]
    let left := (v.beginEdit "x").1.run [.setPageSize ⟨10, by decide⟩]
    v.Reachable ∧ v.edit = none ∧ v.page.IsNumbered ∧ v.page.offset = 50 ∧
      left.cancelEdit.1.page = ⟨2, ⟨10, by decide⟩⟩ ∧ left.cancelEdit.1.page.offset = 20 ∧
      ¬ left.cancelEdit.1.page.Shows v.page.offset := by
  intro v left
  refine ⟨.new _ _, rfl, ?_, by decide +kernel, rfl, by decide +kernel, fun h => ?_⟩
  · rw [Page.IsNumbered]
    decide +kernel
  · exact absurd h.lt_next (by decide +kernel)

end View

end TagCatalog
