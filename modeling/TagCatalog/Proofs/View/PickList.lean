import TagCatalog.Proofs.Data.Exchange
import TagCatalog.Proofs.Text.ByteOrder
import TagCatalog.Proofs.Text.Split
import TagCatalog.Proofs.View.Edit
import TagCatalog.View.PickList

/-!
# What a Pick List Asks

Which questions are asked for a pick list, in which order, and what comes of the answers.

At most two questions are asked. The first is for a number, and it alone decides whether
there is a second one: values are asked for if there are some and no more than can be
offered. Nothing is assumed of the party that answers. It may fail, it may count other
values than it lists, and it may answer the same question differently later, so it is a
function of the question and of a state.

The two addresses are written independently of each other, though they have to speak of
the same rows. `range?_eq` says that they do: of the settings only base, schema, zone and
versions are used, an open edit takes its tag out of the filter, and what is told about
the values is the last word of the address.

The order of the values is that of their bytes by `Utf8.bytes_le_iff`.

## Main definitions

* `View.unedited`: The filter without the tag that is being edited.
* `View.rangeText`: The address of what is to be told about the values of a tag.

## Theorems

* `conditions_unedited`, `clause?_unedited`: What is written of a filter during an edit.
* `range?_eq`: The addresses of both questions.
* `range?_options`: Range, limit and offset of the settings do not matter.
* `pickList_of_clause`: The exchange, if the addresses can be written.
* `sorted_values`: Values as they are offered.
* `pickList_asks`: Questions and result, whatever the answers.
-/

namespace TagCatalog

open Exchange OrderedMap Text

namespace View

/-- The filter without the tag that is being edited. -/
def unedited (v : View) : Filter :=
  match v.editing with
  | some tag => v.filter.erase tag
  | none => v.filter

/-- The address of what is to be told about the values of a tag in the rows of a clause. -/
def rangeText (a : Addressing) (clause : List Char) (tag : String) (mode : RangeMode) : String :=
  String.ofList (a.base.toList ++ clause ++ '(' :: escape tag ++ [')'] ++ "?versions=".toList ++
    a.options.versions.word ++ "&range=".toList ++ mode.word)

/-- Leaving out the edited tag is the same as not having it. -/
theorem conditions_unedited (v : View) (a : Addressing) :
    (v.settings a).conditions v.filter = { a with excluded := none }.conditions v.unedited := by
  unfold unedited
  cases hedit : v.editing with
  | none => rw [settings, hedit]
  | some tag =>
    have hexcluded : (v.settings a).excluded = some tag := hedit
    rw [← Addressing.conditions_erase hexcluded]
    refine List.flatMap_congr fun e he => ?_
    -- No entry that is left has the tag.
    have hne : e.1 ≠ tag := ((mem_erase v.filter tag e).mp he).2
    simp [hexcluded, Ne.symm hne]

theorem clause?_unedited (v : View) (a : Addressing) :
    (v.settings a).clause? v.filter = { a with excluded := none }.clause? v.unedited := by
  unfold Addressing.clause?
  rw [conditions_unedited]
  rfl

theorem range?_eq (v : View) (a : Addressing) (tag : String) (mode : RangeMode) :
    v.range? a tag mode =
      match { a with excluded := none }.clause? v.unedited with
      | .error e => .error (.address e)
      | .ok clause => .ok (rangeText a clause tag mode) := by
  -- The options have no part in the conditions.
  have hclause : ({ v.settings a with
      options := { a.options with range := some mode } } : Addressing).clause? v.filter =
        { a with excluded := none }.clause? v.unedited := clause?_unedited v a
  unfold range? View.address? Addressing.address?
  simp only [List.isEmpty_cons, Bool.false_eq_true, if_false]
  rw [show (v.settings a).options = a.options from rfl, hclause]
  cases { a with excluded := none }.clause? v.unedited with
  | error e => rfl
  | ok clause =>
    have htail : ({ a.options with range := some mode } : Options).tail =
        "?versions=".toList ++ a.options.versions.word ++ ("&range=".toList ++ mode.word) := rfl
    refine congrArg (fun cs => Except.ok (String.ofList cs)) ?_
    rw [htail, List.map_singleton, joinWith_singleton]
    simp only [List.append_assoc, List.cons_append, List.nil_append]
    rfl

/-- Of the options only the versions are in the addresses. -/
theorem range?_options (v : View) (a : Addressing) (options : Options)
    (h : options.versions = a.options.versions) (tag : String) (mode : RangeMode) :
    v.range? { a with options } tag mode = v.range? a tag mode := by
  have htext : ∀ clause,
      rangeText { a with options } clause tag mode = rangeText a clause tag mode := by
    intro clause
    rw [rangeText, rangeText, h]
  rw [range?_eq, range?_eq]
  simp only [htext]
  rfl

variable {ε σ : Type} (v : View) (a : Addressing) (tag : String) (limit : UInt64)

/-- The exchange when the conditions can be written: how it goes on after the number, and
    after the values if they are asked for. -/
theorem pickList_of_clause {clause : List Char}
    (h : { a with excluded := none }.clause? v.unedited = .ok clause) :
    ∃ next : Except ε UInt64 → Exchange ValueQuestion (ValueQuestion.Answer ε)
        (Except (PickError ε) PickList),
      v.pickList a tag limit = .ask (.count (rangeText a clause tag .count) tag) next ∧
      (∀ e, next (.error e) = .done (.error (.source e))) ∧
      next (.ok 0) = .done (.ok .empty) ∧
      (∀ n, limit < n → next (.ok n) = .done (.ok (.tooMany n))) ∧
      ∀ n, 0 < n → n ≤ limit → ∃ last : Except ε (List String) →
          Exchange ValueQuestion (ValueQuestion.Answer ε) (Except (PickError ε) PickList),
        next (.ok n) = .ask (.values (rangeText a clause tag .values) tag) last ∧
        (∀ e, last (.error e) = .done (.error (.source e))) ∧
        ∀ values, last (.ok values) = .done (.ok (.values (values.mergeSort (· ≤ ·)))) := by
  unfold pickList
  simp only [range?_eq, h]
  refine ⟨_, rfl, fun e => rfl, rfl, fun n hmany => ?_, fun n hsome hfew => ?_⟩
  · have hne : n ≠ 0 := fun h0 => absurd (h0 ▸ hmany) (by simp)
    simp only [if_neg hne, if_pos hmany]
  · have hne : n ≠ 0 := fun h0 => absurd (h0 ▸ hsome) (by simp)
    have hle : ¬ limit < n := UInt64.not_lt.mpr hfew
    simp only [if_neg hne, if_neg hle]
    exact ⟨_, rfl, fun e => rfl, fun values => rfl⟩

/-- Values as they are offered, as many times as they were listed. -/
theorem sorted_values (values : List String) :
    (values.mergeSort (· ≤ ·)).Perm values ∧
      (values.mergeSort (· ≤ ·)).Pairwise fun s t => Utf8.bytes s.toList ≤ Utf8.bytes t.toList := by
  refine ⟨List.mergeSort_perm _ _, ?_⟩
  refine (List.pairwise_mergeSort (fun s t u hst htu => ?_) (fun s t => ?_) values).imp
    fun hle => (Utf8.bytes_le_iff _ _).mpr (of_decide_eq_true hle)
  · exact decide_eq_true (String.le_trans (of_decide_eq_true hst) (of_decide_eq_true htu))
  · simpa using String.le_total s t

/-- Whatever a party answers, a pick list is got with at most two questions about one tag.
    If the conditions cannot be written, none is asked. Otherwise the first is for the
    number of values, and the second is asked exactly if that was answered with a number
    from one to the limit; the addresses differ in their last word. No values, too many of
    them and failures are passed on as they are, and values are put in the order of their
    bytes. Range, limit and offset of the settings do not matter. -/
theorem pickList_asks (answer : (q : ValueQuestion) → σ → q.Answer ε × σ) (s : σ) :
    let asked := (v.pickList a tag limit).asked answer s
    let run := (v.pickList a tag limit).converse answer s
    (∀ options : Options, options.versions = a.options.versions →
      (v.pickList { a with options } tag limit : Exchange _ (ValueQuestion.Answer ε) _) =
        v.pickList a tag limit) ∧
    (∀ e, { a with excluded := none }.clause? v.unedited = .error e →
      asked = [] ∧ run = (.error (.view (.address e)), s)) ∧
    ∀ clause, { a with excluded := none }.clause? v.unedited = .ok clause →
      let counting := ValueQuestion.count (rangeText a clause tag .count) tag
      let listing := ValueQuestion.values (rangeText a clause tag .values) tag
      (∀ e t, answer counting s = (.error e, t) →
        asked = [counting] ∧ run = (.error (.source e), t)) ∧
      (∀ t, answer counting s = (.ok 0, t) → asked = [counting] ∧ run = (.ok .empty, t)) ∧
      (∀ n t, answer counting s = (.ok n, t) → limit < n →
        asked = [counting] ∧ run = (.ok (.tooMany n), t)) ∧
      ∀ n t, answer counting s = (.ok n, t) → 0 < n → n ≤ limit →
        asked = [counting, listing] ∧
        (∀ e u, answer listing t = (.error e, u) → run = (.error (.source e), u)) ∧
        ∀ values u, answer listing t = (.ok values, u) →
          ∃ offered, run = (.ok (.values offered), u) ∧ offered.Perm values ∧
            offered.Pairwise fun s t => Utf8.bytes s.toList ≤ Utf8.bytes t.toList := by
  intro asked run
  refine ⟨fun options hversions => ?_, fun e h => ?_, fun clause h => ?_⟩
  · simp only [pickList, range?_options v a options hversions]
  · simp only [asked, run, pickList, range?_eq, h, Exchange.asked, converse, and_self]
  · intro counting listing
    rcases v.pickList_of_clause (ε := ε) a tag limit h with ⟨next, hask, hfail, hempty, hmany, hfew⟩
    simp only [asked, run, hask]
    refine ⟨fun e t hcount => run_of_answer hcount (hfail e),
      fun t hcount => run_of_answer hcount hempty,
      fun n t hcount hlt => run_of_answer hcount (hmany n hlt), fun n t hcount hpos hle => ?_⟩
    rcases hfew n hpos hle with ⟨last, hlast, hfail', hvalues⟩
    rcases run_of_answer hcount hlast with ⟨hasked, hrun⟩
    refine ⟨hasked.trans (congrArg (counting :: ·) ?_), fun e u hlisted => ?_,
      fun values u hlisted => ?_⟩
    · -- Whatever is answered to the second question, there is no third one.
      rcases hanswer : answer listing t with ⟨_ | _, u⟩
      · exact (run_of_answer hanswer (hfail' _)).1
      · exact (run_of_answer hanswer (hvalues _)).1
    · exact hrun.trans (run_of_answer hlisted (hfail' e)).2
    · exact ⟨_, hrun.trans (run_of_answer hlisted (hvalues values)).2, sorted_values values⟩

/-- The edited tag has no part in the addresses, and two values may be offered. -/
theorem pickList_asks_two :
    let v := (View.new ⟨10, by decide⟩).run
      [.setFilter "color" [⟨.eq, ["red"]⟩], .setFilter "shape" [⟨.eq, []⟩], .beginEdit "shape"]
    let a : Addressing := ⟨"h/", .empty, .utc, { limit := some .unlimited }, none⟩
    let answer : (q : ValueQuestion) → Nat → q.Answer String × Nat
      | .count _ _, n => (.ok 2, n + 1)
      | .values _ _, n => (.ok ["b", "a"], n + 1)
    (v.pickList a "size" 2).asked answer 0 =
        [.count "h/color=red(size)?versions=latest&range=count" "size",
          .values "h/color=red(size)?versions=latest&range=values" "size"] ∧
      ∃ offered, (v.pickList a "size" 2).converse answer 0 = (.ok (.values offered), 2) ∧
        offered.Perm ["b", "a"] := by
  intro v a answer
  rcases pickList_asks v a "size" 2 answer 0 with ⟨_, _, hok⟩
  rcases hok "color=red".toList (by decide +kernel) with ⟨_, _, _, hfew⟩
  rcases hfew 2 1 rfl (by decide) (by decide) with ⟨hasked, _, hvalues⟩
  rcases hvalues ["b", "a"] 2 rfl with ⟨offered, hrun, hperm, _⟩
  refine ⟨hasked.trans ?_, offered, hrun, hperm⟩
  decide +kernel

end View

end TagCatalog
