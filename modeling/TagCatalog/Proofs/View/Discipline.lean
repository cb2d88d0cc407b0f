import TagCatalog.Proofs.View.Constraint
import TagCatalog.Proofs.View.Count

/-!
# Requests under Discipline

Which views can be asked for at any time.

An address cannot be written when a condition has a wrong number of values, and
nothing stops a person from giving a tag such a condition. Only the tag under
edit is safe from it, since its conditions are left out. So the discipline is to
give conditions to no other tag: begin an edit, and leave it by saving or by
giving it up.

`View.Guarded` is what this discipline keeps. All conditions that an address
would write have the right number of values, and so do those that an open edit
would put back. The two parts support each other. Beginning an edit saves
conditions that were written so far, giving it up makes them be written again,
and in between anything may happen to the tag. Saving is the other way out. It
lets the conditions of the tag be written for the first time, which is why they
are checked at that moment, against whatever schema there is. Of the check only
the number of values is needed here.

A run is disciplined or not depending on the edits that are open on its way, so
`View.Disciplined` follows the run. Everything but giving conditions to a tag is
allowed at any time.

## Main definitions

* `Predicate.IsWritable`: A condition that stops no request.
* `View.Guarded`: The invariant.
* `Action.IsDisciplined`, `View.Disciplined`: Conditions are only given to the
  tag under edit.
* `View.Begins`: The two ways a view can begin.
* `View.Serves`: All requests of a view can be made.

## Theorems

* `Guarded.serves`: What the invariant is for.
* `guarded_of_begins`, `guarded_after`, `guarded_run`: The invariant of a run.
* `disciplined_take`: A disciplined run is disciplined from its start on.
* `disciplined_serves`: Requests can be made at all times of a disciplined run.
-/

namespace TagCatalog

open OrderedMap

/-- A condition stops no request if it has not been chosen yet or has the right
    number of values. -/
def Predicate.IsWritable (p : Predicate) : Prop := p.isUnset = false → p.hasValidArity = true

namespace View

/-- What is kept by giving conditions to no tag but the one under edit. -/
structure Guarded (v : View) : Prop where
  /-- The conditions on all tags but the one under edit. -/
  filter : ∀ e ∈ v.filter.entries, v.editing ≠ some e.1 → ∀ p ∈ e.2, p.IsWritable
  /-- The conditions that an open edit would put back. -/
  saved : ∀ edit, v.edit = some edit → ∀ i ps, edit.saved = some (i, ps) → ∀ p ∈ ps, p.IsWritable

/-- All requests of a view can be made, and it has a bookmark if it shows a
    column. -/
structure Serves (v : View) : Prop where
  rows : ∀ a, ∃ address, v.rows? a = .ok address
  count : ∀ a, ∃ address, v.count? a = .ok address
  range : ∀ a tag mode, ∃ address, v.range? a tag mode = .ok address
  bookmark : ∀ a, (∃ address, v.bookmark? a = .ok address) ↔ v.columns ≠ []

/-- The two ways a view can begin: empty, or with a request that was read. -/
inductive Begins : View → Prop
  | new (size : PageSize) : Begins (.new size)
  | opened (r : Reading) (address : List Char) (size : PageSize) :
    Begins (.ofQuery (r.query address) size)

/-- A view without an edit is guarded if all its conditions stop no request. -/
theorem guarded_of_no_edit {v : View} (hedit : v.edit = none)
    (h : ∀ e ∈ v.filter.entries, ∀ p ∈ e.2, p.IsWritable) : v.Guarded where
  filter := fun e he _ => h e he
  saved := fun edit he => by
    rw [hedit] at he
    exact absurd he.symm (Option.some_ne_none edit)

theorem guarded_of_begins {v : View} (h : v.Begins) : v.Guarded := by
  -- Reading leaves no condition with a wrong number of values.
  cases h with
  | new size => exact guarded_of_no_edit rfl fun e he => absurd he List.not_mem_nil
  | opened r address size =>
    exact guarded_of_no_edit rfl fun e he p hp _ =>
      (((r.normal_query address).filter e he).2.2 p hp).arity

namespace Guarded

variable {v : View} (hv : v.Guarded)

include hv

/-- The conditions that are written when the tag under edit is left out. -/
theorem hasValidArity {a : Addressing} (ha : a.excluded = v.editing) (c : String × Predicate)
    (hc : c ∈ (a.writtenPart v.filter).ungrouped) : c.2.hasValidArity = true := by
  rcases (mem_ungrouped _ c).mp hc with ⟨ps, hps, hmem⟩
  rcases a.mem_writtenPart v.filter _ hps with ⟨all, hall, hexcluded, _, hchosen⟩
  rw [ha] at hexcluded
  rcases hchosen c.2 hmem with ⟨hin, hset⟩
  exact hv.filter _ hall hexcluded c.2 hin hset

theorem address?_isOk_iff {a : Addressing} (ha : a.excluded = v.editing) (columns : List String)
    (sort : List SortKey) :
    (∃ address, View.address? a v.filter columns sort = .ok address) ↔ columns ≠ [] := by
  constructor
  · rintro ⟨address, h⟩
    exact ((a.address?_eq_ok_iff _ _ _ _).mp ((View.address?_eq_ok_iff _ _ _ _ _).mp h)).1
  · -- The conditions that are written are right, so only the columns are left to ask for.
    intro hne
    have hok := (a.address?_eq_ok_iff v.filter columns sort _).mpr ⟨hne, hv.hasValidArity ha, rfl⟩
    exact ⟨_, (View.address?_eq_ok_iff _ _ _ _ (String.ofList _)).mpr
      (hok.trans (congrArg Except.ok String.toList_ofList.symm))⟩

theorem serves : v.Serves := by
  have hrange : ∀ a tag mode, ∃ address, v.range? a tag mode = .ok address := fun _ tag _ =>
    (hv.address?_isOk_iff rfl [tag] []).mpr (List.cons_ne_nil _ _)
  refine ⟨fun a => ?_, fun a => hrange a idColumn .count, hrange, fun a => ?_⟩
  · -- The column of the subjects' numbers is always there.
    refine (hv.address?_isOk_iff rfl _ v.sort).mpr ?_
    split
    · next hid => exact List.ne_nil_of_mem (List.contains_iff_mem.mp hid)
    · exact List.append_ne_nil_of_right_ne_nil _ (List.cons_ne_nil _ _)
  · exact hv.address?_isOk_iff rfl v.columns v.sort

/-- No condition is changed but those of the tag under edit. -/
theorem withFilter (filter : Filter) (h : ∀ e ∈ filter.entries, v.editing ≠ some e.1 →
    e ∈ v.filter.entries) : ({ v with filter } : View).Guarded :=
  { hv with filter := fun e he hother => hv.filter e (h e he hother) hother }

/-- The tag under edit may be given any conditions. -/
theorem setFilter (tag : String) (ps : List Predicate) (htag : v.editing = some tag) :
    (v.setFilter tag ps).Guarded := by
  unfold View.setFilter
  -- Without conditions the tag is taken out, else they replace what it had.
  split
  · exact hv.withFilter _ fun e he _ => ((mem_erase v.filter tag e).mp he).1
  · refine hv.withFilter _ fun e he hother => ?_
    rcases mem_insert v.filter tag ps e he with rfl | he
    · exact absurd htag hother
    · exact ((mem_erase v.filter tag e).mp he).1

/-- What is saved was written until then. -/
theorem beginEdit (tag : String) : (v.beginEdit tag).1.Guarded := by
  cases hopen : v.edit with
  | some edit =>
    rw [beginEdit_of_edit tag hopen]
    exact hv
  | none =>
    have hall : ∀ e ∈ v.filter.entries, ∀ p ∈ e.2, p.IsWritable := by
      intro e he
      refine hv.filter e he ?_
      rw [editing, hopen]
      exact (Option.some_ne_none _).symm
    rcases beginEdit_edit tag hopen with ⟨saved, hbegin, hget, _⟩
    rw [hbegin]
    refine ⟨fun e he _ => hall e he, fun edit hedit i ps hsaved => ?_⟩
    rw [← Option.some.inj hedit] at hsaved
    exact hall _ (mem_of_get? v.filter tag ps (hget.symm.trans (congrArg _ hsaved)))

/-- When an edit is over, the conditions of its tag are written again. What they
    are does not matter as long as none of them stops a request. -/
theorem endEdit (edit : Edit) (hedit : v.edit = some edit) (w : View) (hclosed : w.edit = none)
    (ps : List Predicate) (hps : ∀ p ∈ ps, p.IsWritable)
    (h : ∀ e ∈ w.filter.entries, e = (edit.tag, ps) ∨ e ∈ (v.filter.erase edit.tag).entries) :
    w.Guarded := by
  refine guarded_of_no_edit hclosed fun e he => ?_
  rcases h e he with rfl | he
  · exact hps
  · rcases (mem_erase v.filter edit.tag e).mp he with ⟨he, htag⟩
    refine hv.filter e he ?_
    rw [editing, hedit, Option.map_some, ne_eq, Option.some.injEq]
    exact htag.symm

/-- What is saved was checked. -/
theorem saveEdit (schema : Schema) (w : View) (h : v.saveEdit schema = .ok w) : w.Guarded := by
  rcases (saveEdit_eq_ok_iff v w schema).mp h with ⟨edit, hedit, hfits, rfl⟩
  refine hv.endEdit edit hedit _ rfl _
    (fun p hp _ => schema.hasValidArity_of_misfit? edit.tag p (hfits p hp)) fun e he => ?_
  unfold View.setFilter at he
  split at he
  · exact Or.inr he
  · exact mem_insert v.filter edit.tag _ e he

/-- What is put back was written when the edit began. -/
theorem cancelEdit : v.cancelEdit.1.Guarded := by
  unfold View.cancelEdit
  split
  · exact hv
  · next edit hedit =>
    -- Nothing was saved if the tag had no conditions when the edit began.
    cases hsaved : edit.saved with
    | none =>
      refine hv.endEdit edit hedit _ ?_ [] (fun _ hp => absurd hp List.not_mem_nil) ?_
      · rfl
      · exact fun e he => Or.inr he
    | some saved =>
      rcases saved with ⟨i, ps⟩
      refine hv.endEdit edit hedit _ ?_ ps (hv.saved edit hedit i ps hsaved) ?_
      · rfl
      · exact fun e he => mem_place v.filter i edit.tag ps e he

end Guarded

end View

/-- An action that gives conditions to no tag but the one under edit. -/
def Action.IsDisciplined (v : View) : Action → Prop
  | setFilter tag _ => v.editing = some tag
  | _ => True

namespace View

/-- A run in which conditions are given to no tag but the one that is under edit
    at that time. -/
def Disciplined (v : View) : List Action → Prop
  | [] => True
  | action :: actions => action.IsDisciplined v ∧ (v.after action).Disciplined actions

theorem guarded_after {v : View} (action : Action) (haction : action.IsDisciplined v)
    (hv : v.Guarded) : (v.after action).Guarded := by
  -- Only edits are delicate. What else there is leaves the filter alone or takes
  -- conditions away, and an action that fails leaves everything alone.
  by_cases hlayout : action.IsLayout
  · rcases after_layout v action hlayout with ⟨columns, sort, h⟩
    rw [h]
    exact { hv with }
  · cases action with
    | setFilter tag ps => exact hv.setFilter tag ps haction
    | clearFilter tag => exact hv.withFilter _ fun e he _ => ((mem_erase v.filter tag e).mp he).1
    | clearAllFilters => exact hv.withFilter .empty fun e he => absurd he List.not_mem_nil
    | replace columns => exact guarded_of_no_edit rfl fun e he => absurd he List.not_mem_nil
    | addColumns tags policy =>
      cases policy with
      | prepend => exact absurd trivial hlayout
      | replaceAll => exact guarded_of_no_edit rfl fun e he => absurd he List.not_mem_nil
    | removeColumn | setSort | reorderColumns => exact absurd trivial hlayout
    | setPage | nextPage | previousPage | setPageSize => exact { hv with }
    | beginEdit tag => exact hv.beginEdit tag
    | saveEdit schema =>
      rw [after_saveEdit]
      cases h : v.saveEdit schema with
      | ok w => exact hv.saveEdit schema w h
      | error e => exact hv
    | cancelEdit => exact hv.cancelEdit

theorem guarded_run {v : View} (actions : List Action) (h : v.Disciplined actions)
    (hv : v.Guarded) : (v.run actions).Guarded := by
  -- Discipline is a matter of the view at hand, so the view changes with the run.
  induction actions generalizing v with
  | nil => exact hv
  | cons action actions ih => exact ih h.2 (guarded_after action h.1 hv)

theorem disciplined_take {v : View} (actions : List Action) (h : v.Disciplined actions) (n : Nat) :
    v.Disciplined (actions.take n) := by
  induction actions generalizing v n with
  | nil =>
    rw [List.take_nil]
    exact trivial
  | cons action actions ih =>
    cases n with
    | zero => exact trivial
    | succ n => exact ⟨h.1, ih h.2 n⟩

/-- Whatever is done to a view, all its requests can be made at all times if
    conditions are given to no tag but the one under edit. -/
theorem disciplined_serves {v : View} (hv : v.Begins) (actions : List Action)
    (h : v.Disciplined actions) (n : Nat) : (v.run (actions.take n)).Serves :=
  (guarded_run _ (disciplined_take actions h n) (guarded_of_begins hv)).serves

/-- Neither half an interval nor the failure to save it stops a request, and the
    interval that is put back does not either. -/
theorem disciplined_serves_half_typed :
    let r : Reading := ⟨.ofList [("n", { type := .integer })], .utc⟩
    let v := View.ofQuery (r.query "h/n=%281%2C2%29(name)".toList) ⟨10, by decide⟩
    let actions : List Action :=
      [.beginEdit "n", .setFilter "n" [⟨.between, ["1"]⟩], .saveEdit r.schema, .setPage 2,
        .beginEdit "name", .cancelEdit, .addColumns ["id"] .replaceAll]
    let a : Addressing := ⟨"h/", r.schema, .utc, {}, none⟩
    v.Disciplined actions ∧
      ((v.run (actions.take 5)).filter.entries = [("n", [⟨.between, ["1"]⟩])] ∧
        (v.run (actions.take 5)).Serves ∧
        (v.run (actions.take 5)).rows? a = .ok "h/(name;id)?versions=latest&limit=10") ∧
      ((v.run (actions.take 6)).filter.entries = [("n", [.between "1" "2"])] ∧
        (v.run (actions.take 6)).Serves ∧
        (v.run (actions.take 6)).rows? a =
          .ok "h/n=%281%2C2%29(name;id)?versions=latest&limit=10&offset=0") := by
  intro r v actions a
  have h : v.Disciplined actions :=
    ⟨trivial, rfl, trivial, trivial, trivial, trivial, trivial, trivial⟩
  have hserves := disciplined_serves (.opened r _ _) actions h
  exact ⟨h, ⟨rfl, hserves 5, by decide +kernel⟩, ⟨rfl, hserves 6, by decide +kernel⟩⟩

end View

end TagCatalog
