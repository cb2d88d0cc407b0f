import TagCatalog.Proofs.Catalog.Skip
import TagCatalog.Proofs.View.Count

/-!
# Skipping by One Address

A refresh asks under two addresses and is skipped by one of them.

Only the address of the rows is remembered. A refresh that is skipped because
of it might have asked for another number of rows than the latest one, if two
plans could agree in the one address and differ in the other. `plan_unique` says
that plans of views cannot. Both views are arbitrary here, and so are their
settings: a refresh may well be skipped in favour of one that was begun with
another base, as long as the addresses come out the same.

## Theorems

* `plan_unique`: Plans with one address for the rows are one plan.
* `rows_determine_plan`: A refresh that is skipped would have asked for what the
  latest one asked for.
-/

namespace TagCatalog

namespace Race

open RaceEvent

section Plan

variable {v w : View} {a b : Addressing} {plan plan' : RefreshPlan}

theorem refreshPlan?_eq_ok_iff (v : View) (a : Addressing) (plan : RefreshPlan) :
    v.refreshPlan? a = .ok plan ↔ v.rows? a = .ok plan.rows ∧ v.count? a = .ok plan.count := by
  rcases plan with ⟨rows, count⟩
  unfold View.refreshPlan?
  cases v.rows? a with
  | error e => exact iff_of_false (fun h => nomatch h) fun h => nomatch h.1
  | ok rows' =>
    cases v.count? a with
    | error e => exact iff_of_false (fun h => nomatch h) fun h => nomatch h.2
    | ok count' => simp only [Except.ok.injEq, RefreshPlan.mk.injEq]

/-- Plans with one address for the rows are one plan. -/
theorem plan_unique (hv : v.refreshPlan? a = .ok plan) (hw : w.refreshPlan? b = .ok plan')
    (hrows : plan.rows = plan'.rows) : plan = plan' := by
  rcases (refreshPlan?_eq_ok_iff v a plan).mp hv with ⟨hvrows, hvcount⟩
  rcases (refreshPlan?_eq_ok_iff w b plan').mp hw with ⟨hwrows, hwcount⟩
  rcases View.count?_of_rows? hvrows (hrows ▸ hwrows) with ⟨count, hvboth, hwboth⟩
  rw [hvcount, Except.ok.injEq] at hvboth
  rw [hwcount, Except.ok.injEq] at hwboth
  rcases plan with ⟨rows, count⟩
  rcases plan' with ⟨rows', count'⟩
  rw [RefreshPlan.mk.injEq]
  exact ⟨hrows, hvboth.trans hwboth.symm⟩

/-- What a refresh would ask for is made of the view that it was begun with. -/
theorem exists_begin_of_plans {events : List RaceEvent} {place : Nat}
    (h : (plans events)[place]? = some (.ok plan)) :
    ∃ v a force, .begin v a force ∈ events ∧ v.refreshPlan? a = .ok plan := by
  rcases List.mem_filterMap.mp (List.mem_of_getElem? h) with ⟨event, hevent, hplan⟩
  cases event with
  | begin v a force => exact ⟨v, a, force, hevent, Option.some.inj hplan⟩
  | reply | notice | settle | invalidate => exact nomatch hplan

theorem exists_plan_of_skips {client : Client} {race : Race} {force : Bool}
    (h : race.Skips client v a force) : ∃ plan, v.refreshPlan? a = .ok plan := by
  cases hplan : v.refreshPlan? a with
  | ok plan => exact ⟨plan, rfl⟩
  | error e =>
    have hentry := (getElem?_add race (.failed e) race.entries.length _).mpr (Or.inr ⟨rfl, rfl⟩)
    rw [Skips, start_error hplan, result?, hentry] at h
    cases h

end Plan

/-- The address of the rows stands for all that a refresh asks for. Views with
    one address for their rows have one for the number of them, so that a refresh
    that is skipped would have asked for just what the latest one asked for. -/
theorem rows_determine_plan :
    (∀ (v w : View) (a b : Addressing) (rows : String),
      v.rows? a = .ok rows → w.rows? b = .ok rows →
      ∃ count, v.count? a = .ok count ∧ w.count? b = .ok count) ∧
    ∀ (client : Client) (events : List RaceEvent) (race : Race),
      run? client {} events = some race → ∀ view a force, race.Skips client view a force →
        ∃ plan latest, view.refreshPlan? a = .ok plan ∧ race.IsLatest latest ∧
          (plans events)[latest]? = some (.ok plan) := by
  refine ⟨fun v w a b rows hv hw => View.count?_of_rows? hv hw,
    fun client events race hrun view a force hskips => ?_⟩
  rcases exists_plan_of_skips hskips with ⟨plan, hplan⟩
  have hlast := ((skips_iff hplan).mp hskips).2
  rcases (lastUrl_eq_some_iff hrun).mp hlast with ⟨latest, plan', hlatest, hplan', hrows, _⟩
  rcases exists_begin_of_plans hplan' with ⟨w, b, _, _, hw⟩
  refine ⟨plan, latest, hplan, hlatest, ?_⟩
  rw [plan_unique hplan hw hrows.symm]
  exact hplan'

/-- A condition in one base may be one of the filter behind another base. The
    two refreshes ask for the same all the same. -/
theorem rows_determine_plan_of_bases :
    let client : Client := ⟨"h", 1⟩
    let v : View :=
      { filter := .ofList [("x", [⟨.eq, ["1"]⟩])], columns := ["name"],
        page := ⟨0, ⟨10, by decide⟩⟩ }
    let w : View := { columns := ["name"], page := ⟨0, ⟨10, by decide⟩⟩ }
    let a : Addressing := ⟨"h?/(", .empty, .utc, {}, none⟩
    let b : Addressing := ⟨"h?/(x=1", .empty, .utc, {}, none⟩
    let rows := "h?/(x=1(name;id)?versions=latest&limit=10&offset=0"
    let count := "h?/(x=1(id)?versions=latest&range=count"
    v.rows? a = .ok rows ∧ w.rows? b = .ok rows ∧
      v.count? a = .ok count ∧ w.count? b = .ok count ∧
      ∃ race, run? client {} [.begin v a false] = some race ∧ race.Skips client w b false ∧
        ∃ latest, race.IsLatest latest ∧
          (plans [.begin v a false])[latest]? = some (.ok ⟨rows, count⟩) := by
  intro client v w a b rows count
  have hv : v.rows? a = .ok rows := by decide +kernel
  have hw : w.rows? b = .ok rows := by decide +kernel
  have hplan : w.refreshPlan? b = .ok ⟨rows, count⟩ := by decide +kernel
  have hwcount : w.count? b = .ok count := ((refreshPlan?_eq_ok_iff w b _).mp hplan).2
  have hstate : (run? client {} [.begin v a false]).map (fun race => race.refresher.lastUrl) =
      some (some rows) := by decide +kernel
  rcases Option.map_eq_some_iff.mp hstate with ⟨race, hrun, hlast⟩
  have hskips : race.Skips client w b false := (skips_iff hplan).mpr ⟨rfl, hlast⟩
  -- Of one view the number of rows is asked for as said, so it is of the other one.
  rcases rows_determine_plan.1 v w a b rows hv hw with ⟨_, hvcount, hboth⟩
  rw [← hboth, hwcount] at hvcount
  rcases rows_determine_plan.2 client _ race hrun w b false hskips with
    ⟨plan, latest, hskipped, hlatest, hissued⟩
  have hsame : plan = ⟨rows, count⟩ := Except.ok.inj (hskipped.symm.trans hplan)
  exact ⟨hv, hw, hvcount, hwcount, race, hrun, hskips, latest, hlatest, hsame ▸ hissued⟩

end Race

end TagCatalog
