import TagCatalog.Proofs.View.Discipline

/-!
# Showing Other Columns

What the two ways of putting columns in place of a whole view have in common.

A view can be replaced, and columns can be added in place of all that is shown.
Either way nothing may be left that refers to the old columns, and so conditions,
sort keys and an open edit are gone afterwards. Both also remove repetitions, each
in its own manner. They come to the same list, since leaving out what is shown
already leaves out nothing where nothing is shown.

They differ in the page. A replaced view begins at its first page, while adding
columns in place of others stays where the old view was. So the one is the other
exactly if the view was at its first page, and only then are the same rows asked
for.

## Theorems

* `addColumns_of_no_columns`: The first columns of a view.
* `addColumns_replaceAll`: Adding columns in place of others is replacing, but for
  the page.
* `offset_eq_of_rows?`: The address of rows tells the first one.
* `replacements_agree_iff`: When the two ways agree.
* `replacements_differ`: A page that one of them keeps.
-/

namespace TagCatalog

namespace View

/-- Where no column is shown, all tags are new. -/
theorem addColumns_of_no_columns (v : View) (tags : List String) (h : v.columns = []) :
    (v.addColumns tags .prepend).1 = { v with columns := distinct tags } := by
  have hall : tags.filter (fun tag => !v.columns.contains tag) = tags :=
    List.filter_eq_self.mpr fun tag _ => by rw [h]; rfl
  rw [addColumns_prepend, unshown, hall, h, List.append_nil]

/-- Adding columns in place of all others replaces the view, but for the page. -/
theorem addColumns_replaceAll (v : View) (tags : List String) :
    (v.addColumns tags .replaceAll).1 = { v.replace tags with page := v.page } :=
  addColumns_of_no_columns { page := v.page } tags rfl

/-- Rows of views without an edit are asked for alike only if they begin with the
    same one. -/
theorem offset_eq_of_rows? {v w : View} {a b : Addressing} {address : String}
    (hv : v.rows? a = .ok address) (hw : w.rows? b = .ok address) (hedit : v.edit = none)
    (hedit' : w.edit = none) : v.page.offset = w.page.offset := by
  have hwritten := (Addressing.parts_unique _ _ _ _ _ _ _ _ _ ((address?_eq_ok_iff _ _ _ _ _).mp hv)
    ((address?_eq_ok_iff _ _ _ _ _).mp hw)).2
  have hoffset := congrArg Options.offset hwritten
  -- Neither asks for a range, so both write their first row.
  have hfirst : ∀ (u : View) (c : Addressing), u.edit = none →
      (u.pageSettings c).options.written.offset = some u.page.offset := by
    intro u c hu
    simp [pageSettings, Options.written, hu]
  rw [hfirst v a hedit, hfirst w b hedit', Option.some.injEq] at hoffset
  exact hoffset

/-- Adding columns in place of all others and replacing the view show the same
    columns, each once, and leave no conditions, no sort keys and no edit. They lead
    to the same view exactly if the old view was at its first page, and otherwise
    they ask for other rows. -/
theorem replacements_agree_iff (v : View) (tags : List String) :
    let added := (v.addColumns tags .replaceAll).1
    let replaced := v.replace tags
    (∀ w ∈ [added, replaced],
      w.columns = tags.foldl (fun shown tag => if tag ∈ shown then shown else shown ++ [tag]) [] ∧
        w.filter = .empty ∧ w.sort = [] ∧ w.edit = none) ∧
      added.page = v.page ∧ replaced.page = ⟨0, v.page.size⟩ ∧
      (added = replaced ↔ v.page.index = 0) ∧
      ∀ a, added.rows? a = replaced.rows? a ↔ v.page.index = 0 := by
  intro added replaced
  -- One view is the other with the old page, so all that differs is in the index.
  have hadded : added = { replaced with page := v.page } := v.addColumns_replaceAll tags
  have hequal : added = replaced ↔ v.page.index = 0 := by
    rw [hadded]
    constructor
    · intro h
      exact congrArg (fun w : View => w.page.index) h
    · intro h
      have hpage : v.page = ⟨0, v.page.size⟩ := by rw [← h]
      exact congrArg (fun page => { replaced with page }) hpage
  refine ⟨?_, rfl, rfl, hequal, fun a => ⟨fun h => ?_, fun h => by rw [hequal.mpr h]⟩⟩
  · intro w hw
    rw [List.mem_cons, List.mem_singleton, hadded] at hw
    rcases hw with rfl | rfl <;> exact ⟨distinct_eq_foldl tags, rfl, rfl, rfl⟩
  · -- Without conditions the rows can be asked for, and their address names the first.
    have hserves : added.Serves :=
      (guarded_of_no_edit rfl fun e he => absurd he List.not_mem_nil).serves
    rcases hserves.rows a with ⟨address, haddress⟩
    have hoffset : v.page.offset = Page.offset ⟨0, v.page.size⟩ :=
      offset_eq_of_rows? haddress (h.symm.trans haddress) rfl rfl
    rw [← Page.offset_eq_zero_iff, hoffset, Page.offset_eq_zero_iff]

/-- Other columns are shown on the fourth page, where the old view was. -/
theorem replacements_differ :
    let v := (View.new ⟨25, by decide⟩).run [.replace ["x"], .setPage 3]
    let added := (v.addColumns ["y", "z", "y"] .replaceAll).1
    let replaced := v.replace ["y", "z", "y"]
    v.Reachable ∧ added.columns = ["y", "z"] ∧ replaced.columns = ["y", "z"] ∧
      added.page = ⟨3, ⟨25, by decide⟩⟩ ∧ replaced.page = ⟨0, ⟨25, by decide⟩⟩ ∧
      added ≠ replaced :=
  ⟨.new _ _, rfl, rfl, rfl, rfl, fun h => absurd (congrArg View.page h) (by decide)⟩

end View

end TagCatalog
