import TagCatalog.Proofs.View.Cancel
import TagCatalog.Proofs.View.Constraint

/-!
# Saving an Edit

What a view is after an edit was saved, or could not be.

Saving drops the conditions that were begun and not completed, checks the others
one after the other, and only then changes anything. So there are two ways it can
go. Either all completed conditions pass, and they are what the tag has
afterwards, or the first one that does not is named and the view is the old one
with the edit still open.

A tag that was saved cannot be why an address is not written. A check has counted
the values of each condition, and the count is all that writing asks for.
`fault?_conditions_erase` says so in the form that is needed: whatever the fault
of a filter is, it is the same without the tag.

## Main definitions

* `Predicate.IsCompleted`: Conditions that are worth keeping.
* `View.Commits`: What saving an edit does.

## Theorems

* `completed_eq`: Which conditions are kept.
* `saveEdit_of_misfit`: How saving can fail.
* `Addressing.fault?_conditions_erase`: A tag whose conditions have the right
  numbers of values is at no fault.
* `setFilter_commits`: What saving an edit does.
* `saveEdit_atomic`: An edit is saved as a whole or not at all.
-/

namespace TagCatalog

open OrderedMap

/-- Conditions that are worth keeping: an operator was chosen, and there are values
    if the operator takes any. -/
def Predicate.IsCompleted (p : Predicate) : Prop :=
  p.op ≠ .unset ∧ (p.op.arity ≠ .zero → p.values ≠ [])

instance : DecidablePred Predicate.IsCompleted := fun p =>
  inferInstanceAs (Decidable (p.op ≠ .unset ∧ (p.op.arity ≠ .zero → p.values ≠ [])))

namespace Addressing

variable (a : Addressing) {tag : String} {filter : Filter}

/-- A tag whose conditions have the right numbers of values is at no fault. -/
theorem fault?_conditions_erase
    (hget : ∀ ps, filter.get? tag = some ps → ∀ p ∈ ps, p.hasValidArity = true) :
    fault? (a.conditions (filter.erase tag)) = fault? (a.conditions filter) := by
  have h : ∀ ps, (tag, ps) ∈ filter.entries → ∀ p ∈ ps, p.hasValidArity = true :=
    fun ps hps => hget ps (get?_of_mem hps)
  simp only [conditions, erase, eraseEntries]
  generalize filter.entries = es at h ⊢
  induction es with
  | nil => rfl
  | cons e es ih =>
    rcases e with ⟨t, ps⟩
    have hrest := ih fun qs hqs => h qs (List.mem_cons_of_mem _ hqs)
    by_cases ht : t = tag
    · -- What is left out is without fault, be the tag excluded or not.
      have hnone : fault? (if a.excluded = some t then []
          else (ps.filter fun p => !p.isUnset).map fun p => (t, p)) = none := by
        rw [fault?_eq_none_iff]
        intro c hc
        split at hc
        · exact absurd hc List.not_mem_nil
        · rcases List.mem_map.mp hc with ⟨p, hp, rfl⟩
          exact h ps (ht ▸ List.mem_cons_self) p (List.mem_filter.mp hp).1
      rw [List.filter_cons_of_neg (by simp [ht]), hrest, List.flatMap_cons, fault?_append, hnone,
        Option.none_or]
    · rw [List.filter_cons_of_pos (by simp [ht]), List.flatMap_cons, List.flatMap_cons,
        fault?_append, fault?_append, hrest]

end Addressing

namespace View

/-- Saving conditions of the tag under edit. -/
structure Commits (tag : String) (kept : List Predicate) (v w : View) : Prop where
  /-- The tag has the conditions, or is not constrained if there are none. -/
  conditions : w.filter.get? tag = if kept = [] then none else some kept
  position : kept ≠ [] → w.filter.position? tag = v.filter.position? tag
  /-- The conditions of all other tags, and their order. -/
  others : w.filter.erase tag = v.filter.erase tag
  /-- Nothing but the filter and the edit is changed. -/
  rest : w = { v with filter := w.filter, edit := none }
  /-- No failure to write conditions has to do with the tag. -/
  clause : ∀ (a : Addressing) e,
    a.clause? w.filter = .error e ↔ a.clause? (w.filter.erase tag) = .error e
  address : ∀ (a : Addressing) columns sort e, a.address? w.filter columns sort = .error e ↔
    a.address? (w.filter.erase tag) columns sort = .error e

variable {v : View} {edit : Edit} {schema : Schema}

theorem completed_eq (predicates : List Predicate) :
    completed predicates = predicates.filter fun p => p.IsCompleted := by
  refine List.filter_congr fun p _ => ?_
  rw [Bool.eq_iff_iff, decide_eq_true_eq, Predicate.IsCompleted, Predicate.isUnset]
  simp [imp_iff_not_or]

/-- The first condition that does not fit is the one that is named. -/
theorem saveEdit_of_misfit (hedit : v.edit = some edit)
    (h : ¬ ∀ p ∈ completed ((v.filter.get? edit.tag).getD []),
      schema.misfit? edit.tag p = none) :
    ∃ front p back reason, completed ((v.filter.get? edit.tag).getD []) = front ++ p :: back ∧
      (∀ q ∈ front, schema.misfit? edit.tag q = none) ∧
      schema.misfit? edit.tag p = some reason ∧
      v.saveEdit schema = .error (.invalidPredicate edit.tag reason) := by
  cases hfind : (completed ((v.filter.get? edit.tag).getD [])).findSome?
    (schema.misfit? edit.tag) with
  | none => exact absurd (List.findSome?_eq_none_iff.mp hfind) h
  | some reason =>
    rcases List.findSome?_eq_some_iff.mp hfind with ⟨front, p, back, hsplit, hp, hfront⟩
    refine ⟨front, p, back, reason, hsplit, hfront, hp, ?_⟩
    unfold saveEdit
    rw [hedit]
    simp only [hfind]

theorem Commits.of_filter {tag : String} {kept : List Predicate} {filter : Filter}
    (hconditions : filter.get? tag = if kept = [] then none else some kept)
    (hposition : kept ≠ [] → filter.position? tag = v.filter.position? tag)
    (hothers : filter.erase tag = v.filter.erase tag)
    (harity : ∀ p ∈ kept, p.hasValidArity = true) :
    Commits tag kept v { v with filter, edit := none } := by
  have hfault : ∀ a : Addressing, Addressing.fault? (a.conditions filter) =
      Addressing.fault? (a.conditions (filter.erase tag)) := by
    refine fun a => (a.fault?_conditions_erase fun ps hps => ?_).symm
    rw [hconditions] at hps
    split at hps
    · exact absurd hps.symm (Option.some_ne_none ps)
    · rwa [← Option.some.inj hps]
  refine ⟨hconditions, hposition, hothers, rfl, fun a e => ?_, fun a columns sort e => ?_⟩
  · rw [a.clause?_eq_error_iff, a.clause?_eq_error_iff, hfault]
  · rw [a.address?_eq_error_iff, a.address?_eq_error_iff, hfault]

/-- A tag that has conditions is given those that are kept where it stands. -/
theorem setFilter_commits (tag : String) (kept : List Predicate)
    (hold : kept ≠ [] → v.filter.get? tag ≠ none) (harity : ∀ p ∈ kept, p.hasValidArity = true) :
    Commits tag kept v { v.setFilter tag kept with edit := none } := by
  unfold setFilter
  by_cases hkept : kept = []
  · rw [if_pos (by simp [hkept])]
    refine Commits.of_filter ?_ (fun h => absurd hkept h) (erase_erase v.filter tag) harity
    rw [if_pos hkept, get?_erase]
  · rw [if_neg (by simp [hkept])]
    rcases Option.ne_none_iff_exists'.mp (hold hkept) with ⟨ps, hget⟩
    rcases exists_split hget with ⟨front, back, hsplit⟩
    have hnew := entries_insert_of_split hsplit kept
    refine Commits.of_filter ?_ (fun _ => ?_) (erase_insert v.filter tag kept) harity
    · rw [if_neg hkept, get?_of_split hnew]
    · rw [position?_of_split hnew, position?_of_split hsplit]

/-- An edit is saved as a whole or not at all. Of the completed conditions of its tag
    either all fit and are kept, or the first that does not is named. Then the view
    is as before, and if the edit is given up later, the conditions are those from
    before the edit. -/
theorem saveEdit_atomic (v : View) (schema : Schema) :
    (v.edit = none → v.saveEdit schema = .error .notEditing) ∧
      (∀ edit, v.edit = some edit →
        let kept := ((v.filter.get? edit.tag).getD []).filter fun p => p.IsCompleted
        ((∀ p ∈ kept, schema.misfit? edit.tag p = none) →
          ∃ w, v.saveEdit schema = .ok w ∧ Commits edit.tag kept v w) ∧
        ((¬ ∀ p ∈ kept, schema.misfit? edit.tag p = none) →
          ∃ front p back reason, kept = front ++ p :: back ∧
            (∀ q ∈ front, schema.misfit? edit.tag q = none) ∧
            schema.misfit? edit.tag p = some reason ∧
            v.saveEdit schema = .error (.invalidPredicate edit.tag reason))) ∧
      ∀ e, v.saveEdit schema = .error e → v.after (.saveEdit schema) = v ∧
        ∀ (u : View) tag before later, u.edit = none → v = (u.beginEdit tag).1.run before →
          (∀ action ∈ before ++ later, action.KeepsEdit) →
          let left := (v.after (.saveEdit schema)).run later
          left.cancelEdit.2 = true ∧ left.cancelEdit.1.filter.get? tag = u.filter.get? tag ∧
            ∀ i, u.filter.position? tag = some i →
              left.cancelEdit.1.filter.position? tag =
                some (min i (left.filter.erase tag).size) := by
  refine ⟨fun hclosed => ?_, fun edit hedit => ⟨fun hfits => ?_, fun hmisfit => ?_⟩, fun e he => ?_⟩
  · unfold saveEdit
    rw [hclosed]
  · rw [← completed_eq] at hfits ⊢
    refine ⟨_, (saveEdit_eq_ok_iff v _ schema).mpr ⟨edit, hedit, hfits, rfl⟩,
      setFilter_commits edit.tag _ (fun hkept hnone => ?_)
        fun p hp => schema.hasValidArity_of_misfit? edit.tag p (hfits p hp)⟩
    -- A tag without conditions has none to keep.
    rw [hnone] at hkept
    exact hkept rfl
  · rw [← completed_eq] at hmisfit ⊢
    exact saveEdit_of_misfit hedit hmisfit
  · have hsame : v.after (.saveEdit schema) = v := by
      rw [after_saveEdit, he]
      rfl
    refine ⟨hsame, fun u tag before later hopen hv hactions => ?_⟩
    -- Nothing happened, so the edit goes on as if it had never been tried to save it.
    have hrun : (v.after (.saveEdit schema)).run later =
        (u.beginEdit tag).1.run (before ++ later) := by
      rw [hsame, hv, run, run, run, List.foldl_append]
    rw [hrun]
    rcases cancelEdit_begun tag (before ++ later) hopen hactions with
      ⟨saved, hconditions, hposition, hdone, hback⟩
    exact ⟨hdone, hback.conditions.trans hconditions,
      fun i hi => hback.position i (hposition.trans hi)⟩

/-- A bound that is not a number keeps the edit open. Without that condition, the one
    that has no value yet is dropped and the other one is kept. -/
theorem saveEdit_atomic_number :
    let page : Page := ⟨0, ⟨10, by decide⟩⟩
    let schema : Schema := .ofList [("n", ⟨.integer, false, false⟩)]
    let edit : Edit := ⟨"n", none, 0⟩
    let v : View :=
      { filter := .ofList [("n", [⟨.less, []⟩, ⟨.less, ["7"]⟩, ⟨.greater, ["x"]⟩])], page, edit }
    let w : View := { v with filter := .ofList [("n", [⟨.less, []⟩, ⟨.less, ["7"]⟩])] }
    v.saveEdit schema = .error (.invalidPredicate "n" (.value "x" .integer)) ∧
      v.after (.saveEdit schema) = v ∧
      ∃ saved, w.saveEdit schema = .ok saved ∧ saved.filter.get? "n" = some [⟨.less, ["7"]⟩] ∧
        saved.edit = none := by
  intro page schema edit v w
  have hfail : v.saveEdit schema = .error (.invalidPredicate "n" (.value "x" .integer)) := by decide
  rcases saveEdit_atomic v schema with ⟨_, _, hkeep⟩
  rcases saveEdit_atomic w schema with ⟨_, hsave, _⟩
  rcases (hsave edit rfl).1 (by decide) with ⟨saved, hsaved, hcommits⟩
  refine ⟨hfail, (hkeep _ hfail).1, saved, hsaved, hcommits.conditions, ?_⟩
  rw [hcommits.rest]

end View

end TagCatalog
