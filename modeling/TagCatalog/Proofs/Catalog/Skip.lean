import TagCatalog.Proofs.Catalog.Delivery

/-!
# Skipped Refreshes

A refresh is skipped only if what it would get is there already or on its way.

The refresher decides by one remembered address. That address is written when
a refresh is issued, long before it is known what becomes of the refresh, and it
is taken back on only one of the ways in which a refresh can end. So the memory
is right only because the other ways cannot touch it: a refresh that was
overtaken has nothing to say about an address that a newer one wrote.

`Race.Remembers` says what the remembered address stands for. It is the address
of the latest refresh, as long as that one is under way or has returned rows,
and as long as nothing was forgotten after it began. The last part is not in
the race any more and is looked up in the events.

What a refresh does as it begins depends on nothing else, and `skips_current`
sums up when it is skipped. The condition there is exact, so it says as well
which refreshes are issued.

## Main definitions

* `RaceEvent.Forgotten`: What was asked for was forgotten after a refresh began.
* `Race.held?`: The address of the rows that a refresh is getting or has got.
* `Race.Remembers`: What the refresher remembers.
* `Race.IsCurrent`: Rows are there or on their way.

## Theorems

* `remembers_step`, `remembers_run`: The memory is right after every step and
  every run.
* `lastUrl_eq_some_iff`: The remembered address is the current one.
* `start_eq`: What a refresh does as it begins.
* `skipped_run`: A refresh was skipped as it began.
* `skips_current`: Refreshes are skipped if and only if their rows are current.
-/

namespace TagCatalog

namespace RaceEvent

/-- What was asked for last was forgotten after the refresh at a place began. -/
def Forgotten (events : List RaceEvent) (place : Nat) : Prop :=
  ∃ before rest, events = before ++ invalidate :: rest ∧ place < (plans before).length

section Forgotten

variable {events : List RaceEvent} {event : RaceEvent} {place : Nat}

theorem Forgotten.lt (h : Forgotten events place) : place < (plans events).length := by
  rcases h with ⟨before, rest, rfl, hlt⟩
  rw [plans, List.filterMap_append, List.length_append]
  exact Nat.lt_add_right _ hlt

theorem forgotten_concat_iff (h : event ≠ invalidate) :
    Forgotten (events ++ [event]) place ↔ Forgotten events place := by
  constructor
  · rintro ⟨before, rest, heq, hlt⟩
    -- The last event is another one, so something comes behind the forgetting.
    rcases List.eq_nil_or_concat rest with rfl | ⟨rest, last, rfl⟩
    · have hlast := List.append_inj_right' heq rfl
      rw [List.cons.injEq] at hlast
      exact absurd hlast.1 h
    · rw [List.concat_eq_append, ← List.cons_append, ← List.append_assoc] at heq
      exact ⟨before, rest, List.append_inj_left' heq rfl, hlt⟩
  · rintro ⟨before, rest, rfl, hlt⟩
    exact ⟨before, rest ++ [event], by rw [List.append_assoc, List.cons_append], hlt⟩

end Forgotten

end RaceEvent

/-- The address of the rows that a refresh is getting or has got. -/
def RaceEntry.held? : RaceEntry → Option String
  | running p => some p.plan.rows
  | ended plan _ (.ok _) => some plan.rows
  | _ => none

namespace Race

open RaceEvent

/-- The address of the rows that the refresh at a place is getting or has got. -/
def held? (race : Race) (place : Nat) : Option String :=
  race.entries[place]?.bind RaceEntry.held?

/-- The refresher remembers the address of the latest refresh, while that one
    holds it and nothing was forgotten. -/
def Remembers (race : Race) (events : List RaceEvent) : Prop :=
  ∀ rows, race.refresher.lastUrl = some rows ↔
    ∃ place, race.generationAt? place = some race.refresher.generation ∧
      race.held? place = some rows ∧ ¬ Forgotten events place

section Bind

variable {β : Type} (f : RaceEntry → Option β) {race : Race} {place : Nat} (entry : RaceEntry)

theorem bind_add (hentry : f entry = none) (i : Nat) :
    (race.add entry).entries[i]?.bind f = race.entries[i]?.bind f := by
  refine Option.ext fun b => ?_
  simp only [Option.bind_eq_some_iff, getElem?_add]
  constructor
  · rintro ⟨e, he | ⟨_, rfl⟩, hb⟩
    · exact ⟨e, he, hb⟩
    · exact nomatch hentry.symm.trans hb
  · rintro ⟨e, he, hb⟩
    exact ⟨e, Or.inl he, hb⟩

theorem bind_put {old : RaceEntry} (hplace : race.entries[place]? = some old)
    (hentry : f entry = f old) (i : Nat) :
    (race.put place entry).entries[i]?.bind f = race.entries[i]?.bind f := by
  rw [getElem?_put race place entry old hplace]
  by_cases hi : place = i
  · rw [if_pos hi, ← hi, hplace, Option.bind_some, Option.bind_some, hentry]
  · rw [if_neg hi]

end Bind

section Remembers

variable {client : Client} {events : List RaceEvent} {race after : Race} {event : RaceEvent}

/-- What changes neither the latest refresh nor what it holds nor the memory of
    it keeps the memory right. -/
theorem Remembers.congr (hrace : race.Remembers events) (hevent : event ≠ .invalidate)
    (hlast : after.refresher.lastUrl = race.refresher.lastUrl)
    (hgeneration : after.refresher.generation = race.refresher.generation)
    (hplaces : ∀ i, after.generationAt? i = race.generationAt? i)
    (hheld : ∀ i, race.generationAt? i = some race.refresher.generation →
      after.held? i = race.held? i) :
    after.Remembers (events ++ [event]) := by
  intro rows
  rw [hlast, hrace rows, hgeneration]
  refine exists_congr fun i => ?_
  rw [hplaces, forgotten_concat_iff hevent]
  exact and_congr_right fun hi => by rw [hheld i hi]

/-- A refresh that is not the latest one gives up. -/
theorem Remembers.give_up {place : Nat} {p : Pursuit} (hrace : race.Remembers events)
    (hevent : event ≠ .invalidate) (hplace : race.entries[place]? = some (.running p))
    (hlate : p.generation ≠ race.refresher.generation) (entry : RaceEntry)
    (hentry : entry.generation? = some p.generation) :
    (race.put place entry).Remembers (events ++ [event]) := by
  refine hrace.congr hevent rfl rfl (bind_put RaceEntry.generation? _ hplace hentry) fun i hi => ?_
  -- The entry that changes is not that of the latest refresh.
  have hi' : place ≠ i := by
    rintro rfl
    have hp : race.generationAt? place = some p.generation :=
      (generationAt?_eq_some_iff race place _).mpr ⟨_, hplace, rfl⟩
    exact hlate (Option.some.inj (hp.symm.trans hi))
  rw [held?, getElem?_put race place entry _ hplace, if_neg hi', held?]

/-- The refresh that is issued is the one that is remembered. -/
theorem remembers_issue (hrace : race.Coherent) (hrecorded : race.Recorded client events)
    (plan : RefreshPlan) (hevent : event ≠ .invalidate) :
    (race.issue client plan).Remembers (events ++ [event]) := by
  have hnew : (race.issue client plan).entries[race.entries.length]? =
      some (.running ⟨plan, race.refresher.generation + 1, false, client.preview plan⟩) :=
    (getElem?_issue client race plan _ _).mpr (Or.inr ⟨rfl, rfl⟩)
  have hnumber : (race.issue client plan).generationAt? race.entries.length =
      some (race.refresher.generation + 1) :=
    (generationAt?_eq_some_iff _ _ _).mpr ⟨_, hnew, rfl⟩
  have hheld : (race.issue client plan).held? race.entries.length = some plan.rows := by
    rw [held?, hnew]
    rfl
  intro rows
  constructor
  · intro hrows
    refine ⟨race.entries.length, hnumber, hheld.trans hrows, ?_⟩
    rw [forgotten_concat_iff hevent]
    -- All that was forgotten was forgotten before it began.
    intro hforgotten
    have hlt := hforgotten.lt
    rw [hrecorded.length_eq] at hlt
    exact Nat.lt_irrefl _ hlt
  · rintro ⟨place, hlatest, hrows, _⟩
    rw [(hrace.issue client plan).place_unique hlatest hnumber, hheld] at hrows
    exact hrows

/-- Every step keeps the memory right. -/
theorem remembers_step (hrace : race.Coherent) (hrecorded : race.Recorded client events)
    (hmemory : race.Remembers events) (h : race.Step client event after) :
    after.Remembers (events ++ [event]) := by
  by_cases hevent : event = .invalidate
  · subst hevent
    cases h with
    | invalidate =>
      -- Nothing is remembered, and every refresh began before this.
      refine fun rows => iff_of_false (fun h => nomatch h) ?_
      rintro ⟨i, hi, _, hforgotten⟩
      rcases (generationAt?_eq_some_iff _ i _).mp hi with ⟨entry, hentry, _⟩
      have hlt : i < race.entries.length := (List.getElem?_eq_some_iff.mp hentry).1
      rw [hrecorded.length_eq] at hlt
      exact hforgotten ⟨events, [], rfl, hlt⟩
  cases h with
  | unwritten view a force e hplan =>
    exact hmemory.congr hevent rfl rfl (bind_add RaceEntry.generation? _ rfl) fun i _ =>
      bind_add RaceEntry.held? _ rfl i
  | skip view a plan hplan hlast =>
    exact hmemory.congr hevent rfl rfl (bind_add RaceEntry.generation? _ rfl) fun i _ =>
      bind_add RaceEntry.held? _ rfl i
  | issue view a force plan hplan hnew => exact remembers_issue hrace hrecorded plan hevent
  | reply place p reply request next hplace hrest =>
    have hput := fun {β : Type} (f : RaceEntry → Option β) =>
      bind_put f (.running { p with rest := next reply }) hplace
    exact hmemory.congr hevent rfl rfl (hput RaceEntry.generation? rfl) fun i _ =>
      hput RaceEntry.held? rfl i
  | notice place p hplace htold =>
    have hlt := (hrace.told place p hplace).mp htold
    exact hmemory.give_up hevent hplace (Nat.ne_of_lt hlt) _ rfl
  | deliver place p preview hplace hrest hlatest =>
    have hput := fun {β : Type} (f : RaceEntry → Option β) =>
      bind_put f (.ended p.plan p.generation (.ok preview)) hplace
    exact hmemory.congr hevent rfl rfl (hput RaceEntry.generation? rfl) fun i _ =>
      hput RaceEntry.held? rfl i
  | fail place p e hplace hrest hlatest =>
    -- The latest refresh holds nothing any more, and nothing is remembered.
    refine fun rows => iff_of_false (fun h => nomatch h) ?_
    rintro ⟨i, hi, hheld, _⟩
    have hsame : race.generationAt? i = some race.refresher.generation :=
      (bind_put RaceEntry.generation? (.ended p.plan p.generation (.error e)) hplace
        rfl i).symm.trans hi
    have hp : race.generationAt? place = some race.refresher.generation :=
      (generationAt?_eq_some_iff race place _).mpr ⟨_, hplace, congrArg some hlatest.symm⟩
    have hentry := getElem?_put race place (.ended p.plan p.generation (.error e)) _ hplace i
    rw [if_pos (hrace.place_unique hp hsame)] at hentry
    rw [held?, hentry] at hheld
    exact nomatch hheld
  | late place p result hplace hrest hlate =>
    exact hmemory.give_up hevent hplace (Ne.symm hlate) _ rfl
  | invalidate => exact absurd rfl hevent

theorem remembers_run (client : Client) (events : List RaceEvent) (race : Race)
    (h : run? client {} events = some race) : race.Remembers events := by
  have hall : race.Coherent ∧ race.Recorded client events ∧ race.Remembers events := by
    refine run?_induction
      (P := fun events race => race.Coherent ∧ race.Recorded client events ∧ race.Remembers events)
      ⟨coherent_empty, recorded_run client [] {} rfl, ?_⟩ ?_ events race h
    · exact fun rows => iff_of_false (fun h => nomatch h) fun ⟨_, h, _⟩ => nomatch h
    · exact fun events race event after ⟨hrace, hrecorded, hmemory⟩ hstep =>
        ⟨coherent_step hrace hstep, recorded_step hrecorded hstep,
          remembers_step hrace hrecorded hmemory hstep⟩
  exact hall.2.2

end Remembers

/-- The rows under an address are there or on their way: the latest refresh
    asked for them, it is under way or has returned them, and nothing was
    forgotten since it began. -/
def IsCurrent (race : Race) (events : List RaceEvent) (rows : String) : Prop :=
  ∃ latest plan, race.IsLatest latest ∧ (plans events)[latest]? = some (.ok plan) ∧
    plan.rows = rows ∧ ¬ Forgotten events latest ∧
    ((∃ p, race.running? latest = some p) ∨
      ∃ preview, race.result? latest = some (.ok (some preview)))

section Current

variable {client : Client} {events : List RaceEvent} {race : Race} {place : Nat} {rows : String}

theorem held?_eq_some_iff (hrecorded : race.Recorded client events) :
    race.held? place = some rows ↔
      ∃ plan, (plans events)[place]? = some (.ok plan) ∧ plan.rows = rows ∧
        ((∃ p, race.running? place = some p) ∨
          ∃ preview, race.result? place = some (.ok (some preview))) := by
  rw [← hrecorded.plans, List.getElem?_map]
  constructor
  · intro hheld
    rcases Option.bind_eq_some_iff.mp hheld with ⟨entry, hentry, hrows⟩
    rw [hentry]
    cases entry with
    | running p =>
      have hp := (running?_eq_some_iff race place p).mpr hentry
      exact ⟨p.plan, rfl, Option.some.inj hrows, Or.inl ⟨p, hp⟩⟩
    | ended plan g result =>
      cases result with
      | ok preview =>
        have hgot := (result?_eq_preview_iff race place preview).mpr ⟨plan, g, hentry⟩
        exact ⟨plan, rfl, Option.some.inj hrows, Or.inr ⟨preview, hgot⟩⟩
      | error e => exact nomatch hrows
    | skipped | failed => exact nomatch hrows
  · rintro ⟨plan, hplan, rfl, ⟨p, hp⟩ | ⟨preview, hgot⟩⟩
    · have hentry := (running?_eq_some_iff race place p).mp hp
      rw [hentry, Option.map_some, Option.some.injEq, RaceEntry.plan, Except.ok.injEq] at hplan
      rw [held?, hentry, ← hplan]
      rfl
    · rcases (result?_eq_preview_iff race place preview).mp hgot with ⟨plan', g, hentry⟩
      rw [hentry, Option.map_some, Option.some.injEq, RaceEntry.plan, Except.ok.injEq] at hplan
      rw [held?, hentry, ← hplan]
      rfl

/-- What is remembered is what is current. -/
theorem lastUrl_eq_some_iff (hrun : run? client {} events = some race) :
    race.refresher.lastUrl = some rows ↔ race.IsCurrent events rows := by
  rw [remembers_run client events race hrun rows]
  constructor
  · rintro ⟨latest, hlatest, hheld, hkept⟩
    rcases (held?_eq_some_iff (recorded_run client events race hrun)).mp hheld with
      ⟨plan, hplan, hrows, hlive⟩
    have hlatest := (coherent_run client events race hrun).isLatest_iff.mpr hlatest
    exact ⟨latest, plan, hlatest, hplan, hrows, hkept, hlive⟩
  · rintro ⟨latest, plan, hlatest, hplan, hrows, hkept, hlive⟩
    refine ⟨latest, (coherent_run client events race hrun).isLatest_iff.mp hlatest, ?_, hkept⟩
    exact (held?_eq_some_iff (recorded_run client events race hrun)).mpr ⟨plan, hplan, hrows, hlive⟩

/-- If the latest refresh failed or was forgotten, no rows are current. -/
theorem not_isCurrent (h : ∀ latest, race.IsLatest latest →
    (∃ e, race.result? latest = some (.error e)) ∨ Forgotten events latest) :
    ¬ race.IsCurrent events rows := by
  rintro ⟨latest, plan, hlatest, _, _, hkept, hlive⟩
  rcases h latest hlatest with ⟨e, hfailed⟩ | hforgotten
  · rcases hlive with ⟨p, hp⟩ | ⟨preview, hgot⟩
    · rw [result?, (running?_eq_some_iff race latest p).mp hp] at hfailed
      exact Option.some_ne_none _ hfailed.symm
    · cases hgot.symm.trans hfailed
  · exact hkept hforgotten

end Current

/-- A refresh that begins now is skipped. -/
def Skips (client : Client) (race : Race) (view : View) (a : Addressing) (force : Bool) : Prop :=
  (race.start client view a force).result? race.entries.length = some (.ok none)

/-- A refresh that begins now is issued and has a plan to ask for. -/
def Issues (client : Client) (race : Race) (view : View) (a : Addressing) (force : Bool)
    (plan : RefreshPlan) : Prop :=
  ∃ p, (race.start client view a force).running? race.entries.length = some p ∧ p.plan = plan

section Start

variable {client : Client} {race : Race} {view : View} {a : Addressing} {force : Bool}
  {plan : RefreshPlan}

/-- A refresh with addresses to ask for is skipped or issued as it begins. -/
theorem start_eq (hplan : view.refreshPlan? a = .ok plan) :
    (force = false ∧ race.refresher.lastUrl = some plan.rows ∧
      race.start client view a force = race.add (.skipped plan)) ∨
    (force = true ∨ race.refresher.lastUrl ≠ some plan.rows) ∧
      race.start client view a force = race.issue client plan := by
  have hstep := step_start client race view a force
  generalize race.start client view a force = after at hstep
  cases hstep with
  | unwritten _ _ _ e he => exact nomatch hplan.symm.trans he
  | skip _ _ plan' hplan' hlast =>
    rw [hplan, Except.ok.injEq] at hplan'
    subst hplan'
    exact Or.inl ⟨rfl, hlast, rfl⟩
  | issue _ _ _ plan' hplan' hnew =>
    rw [hplan, Except.ok.injEq] at hplan'
    subst hplan'
    exact Or.inr ⟨hnew, rfl⟩

theorem start_error {e : ViewError} (hplan : view.refreshPlan? a = .error e) :
    race.start client view a force = race.add (.failed e) := by
  rw [start, hplan, add]

theorem skips_iff (hplan : view.refreshPlan? a = .ok plan) :
    race.Skips client view a force ↔ force = false ∧ race.refresher.lastUrl = some plan.rows := by
  rw [Skips, result?]
  rcases start_eq hplan with ⟨hforce, hlast, hstart⟩ | ⟨hnew, hstart⟩
  · have hentry := (getElem?_add race (.skipped plan) race.entries.length _).mpr (Or.inr ⟨rfl, rfl⟩)
    rw [hstart, hentry]
    exact iff_of_true rfl ⟨hforce, hlast⟩
  · have hentry := (getElem?_issue client race plan race.entries.length _).mpr (Or.inr ⟨rfl, rfl⟩)
    rw [hstart, hentry]
    refine iff_of_false (Option.some_ne_none _).symm fun h => ?_
    rcases hnew with hforce | hlast
    · exact Bool.false_ne_true (h.1.symm.trans hforce)
    · exact hlast h.2

/-- What is not skipped is issued. -/
theorem issues_iff (hplan : view.refreshPlan? a = .ok plan) :
    race.Issues client view a force plan ↔ ¬ race.Skips client view a force := by
  rw [Skips, result?, Issues]
  simp only [running?_eq_some_iff]
  rcases start_eq hplan with ⟨_, _, hstart⟩ | ⟨_, hstart⟩
  · have hentry := (getElem?_add race (.skipped plan) race.entries.length _).mpr (Or.inr ⟨rfl, rfl⟩)
    rw [hstart, hentry]
    refine iff_of_false ?_ fun h => h rfl
    rintro ⟨p, hp, _⟩
    cases hp
  · have hentry := (getElem?_issue client race plan race.entries.length _).mpr (Or.inr ⟨rfl, rfl⟩)
    rw [hstart, hentry]
    exact iff_of_true ⟨_, rfl, rfl⟩ (Option.some_ne_none _).symm

/-- A refresh that is not issued leaves the memory alone. -/
theorem refresher_start
    (h : race.Skips client view a force ∨ ∃ e, view.refreshPlan? a = .error e) :
    (race.start client view a force).refresher = race.refresher := by
  cases hplan : view.refreshPlan? a with
  | error e => rw [start_error hplan, add]
  | ok plan =>
    rcases start_eq hplan with ⟨_, _, hstart⟩ | ⟨hnew, hstart⟩
    · rw [hstart, add]
    · rcases h with hskips | ⟨e, he⟩
      · rcases (skips_iff hplan).mp hskips with ⟨hforce, hlast⟩
        rcases hnew with hforced | hother
        · exact absurd (hforce.symm.trans hforced) Bool.false_ne_true
        · exact absurd hlast hother
      · cases hplan.symm.trans he

theorem result?_eq_skipped_iff (race : Race) (place : Nat) :
    race.result? place = some (.ok none) ↔
      ∃ plan, race.entries[place]? = some (.skipped plan) := by
  rw [result?, Option.bind_eq_some_iff]
  constructor
  · rintro ⟨entry, hentry, hresult⟩
    cases entry with
    | running | failed => cases hresult
    | ended plan g result => cases result <;> cases hresult
    | skipped plan => exact ⟨plan, hentry⟩
  · rintro ⟨plan, hentry⟩
    exact ⟨_, hentry, rfl⟩

/-- A refresh that was skipped was skipped as it began. -/
theorem skipped_run (client : Client) (events : List RaceEvent) (race : Race)
    (hrun : run? client {} events = some race) (place : Nat) (plan : RefreshPlan)
    (hplace : race.entries[place]? = some (.skipped plan)) :
    ∃ before view a rest middle, events = before ++ .begin view a false :: rest ∧
      (plans before).length = place ∧ run? client {} before = some middle ∧
      view.refreshPlan? a = .ok plan ∧ middle.refresher.lastUrl = some plan.rows := by
  induction events using List.reverseRecOn generalizing race with
  | nil =>
    rw [← Option.some.inj hrun] at hplace
    exact nomatch hplace
  | append_singleton events event ih =>
    rw [run?_concat] at hrun
    rcases Option.bind_eq_some_iff.mp hrun with ⟨middle, hmiddle, hlast⟩
    -- It had been skipped before the last event, or this one began it.
    rcases over_of_step (step?_eq_some_iff.mp hlast) hplace (fun p hp => nomatch hp) with
      hbefore | ⟨_, _, _, _, hended⟩ |
      ⟨hnew, ⟨e, he⟩ | ⟨view, a, plan', rfl, hplan, hcurrent, hskip⟩⟩
    · rcases ih middle hmiddle hbefore with ⟨before, view, a, rest, start, rfl, hthen⟩
      refine ⟨before, view, a, rest ++ [event], start, ?_, hthen⟩
      rw [List.append_assoc, List.cons_append]
    · exact nomatch hended
    · exact nomatch he
    · rw [RaceEntry.skipped.injEq] at hskip
      subst hskip
      refine ⟨events, view, a, [], middle, rfl, ?_, hmiddle, hplan, hcurrent⟩
      rw [hnew, (recorded_run client events middle hmiddle).length_eq]

end Start

/-- Skipping is sound. In every run a refresh was skipped only if it was not
    forced and its rows were current as it began, and one that begins now is
    skipped exactly then. Otherwise it is issued, in particular if the latest
    refresh failed or was forgotten. One that is not issued changes nothing, nor
    does one that was overtaken. -/
theorem skips_current (client : Client) (events : List RaceEvent) (race : Race)
    (hrun : run? client {} events = some race) :
    (∀ place, race.result? place = some (.ok none) →
      ∃ before view a rest middle plan, events = before ++ .begin view a false :: rest ∧
        (plans before).length = place ∧ run? client {} before = some middle ∧
        view.refreshPlan? a = .ok plan ∧ middle.IsCurrent before plan.rows) ∧
    (∀ view a force plan, view.refreshPlan? a = .ok plan →
      (race.Skips client view a force ↔ force = false ∧ race.IsCurrent events plan.rows) ∧
      (race.Issues client view a force plan ↔
        force = true ∨ ¬ race.IsCurrent events plan.rows) ∧
      ((∀ latest, race.IsLatest latest →
          (∃ e, race.result? latest = some (.error e)) ∨ Forgotten events latest) →
        race.Issues client view a force plan)) ∧
    (∀ view a force, race.Skips client view a force ∨ (∃ e, view.refreshPlan? a = .error e) →
      (race.start client view a force).refresher = race.refresher) ∧
    ∀ place p event after, race.running? place = some p → race.IsOvertaken place →
      event.place? = some place → race.step? client event = some after →
      after.refresher = race.refresher ∧
        ∀ rows, after.IsCurrent (events ++ [event]) rows ↔ race.IsCurrent events rows := by
  refine ⟨fun place hskipped => ?_, fun view a force plan hplan => ?_,
    fun view a force h => refresher_start h, fun place p event after hp hover hevent hstep => ?_⟩
  · rcases (result?_eq_skipped_iff race place).mp hskipped with ⟨plan, hentry⟩
    rcases skipped_run client events race hrun place plan hentry with
      ⟨before, view, a, rest, middle, hevents, hplace, hmiddle, hplan, hlast⟩
    exact ⟨before, view, a, rest, middle, plan, hevents, hplace, hmiddle, hplan,
      (lastUrl_eq_some_iff hmiddle).mp hlast⟩
  · have hskips : race.Skips client view a force ↔
        force = false ∧ race.IsCurrent events plan.rows := by
      rw [skips_iff hplan, lastUrl_eq_some_iff hrun]
    have hissues : race.Issues client view a force plan ↔
        force = true ∨ ¬ race.IsCurrent events plan.rows := by
      rw [issues_iff hplan, hskips, not_and_or, Bool.not_eq_false]
    exact ⟨hskips, hissues, fun h => hissues.mpr (Or.inr (not_isCurrent h))⟩
  · have hkept : after.refresher = race.refresher :=
      (outcome_overtaken (coherent_run client events race hrun) hover
        ((running?_eq_some_iff race place p).mp hp) (step?_eq_some_iff.mp hstep)).2 hevent
    refine ⟨hkept, fun rows => ?_⟩
    have hthen : run? client {} (events ++ [event]) = some after := by
      rw [run?_concat, hrun]
      exact hstep
    rw [← lastUrl_eq_some_iff hrun, ← lastUrl_eq_some_iff hthen, hkept]

/-- An overtaken refresh that fails does not make the rows of the newer one look
    as if nobody had asked for them. -/
theorem skips_current_after_failure :
    let client : Client := ⟨"h", 1⟩
    let a : Addressing := ⟨"h/", .empty, .utc, {}, none⟩
    let view (column : String) : View := { columns := [column], page := ⟨0, ⟨10, by decide⟩⟩ }
    let events : List RaceEvent :=
      [.begin (view "name") a false, .reply 0 (.response { status := 404, body := "" }),
        .begin (view "age") a false, .settle 0]
    ∃ race plan, run? client {} events = some race ∧ (view "name").refreshPlan? a = .ok plan ∧
      race.IsCurrent events "h/(age;id)?versions=latest&limit=10&offset=0" ∧
      race.Skips client (view "age") a false ∧ race.Issues client (view "name") a false plan := by
  intro client a view events
  have hstate : (run? client {} events).map (fun race => race.refresher.lastUrl) =
      some (some "h/(age;id)?versions=latest&limit=10&offset=0") := by decide +kernel
  rcases Option.map_eq_some_iff.mp hstate with ⟨race, hrun, hlast⟩
  have hage : (view "age").refreshPlan? a = .ok
      ⟨"h/(age;id)?versions=latest&limit=10&offset=0",
        "h/(id)?versions=latest&range=count"⟩ := by decide +kernel
  have hname : (view "name").refreshPlan? a = .ok
      ⟨"h/(name;id)?versions=latest&limit=10&offset=0",
        "h/(id)?versions=latest&range=count"⟩ := by decide +kernel
  rcases skips_current client events race hrun with ⟨_, hbegin, _⟩
  have hskips : race.Skips client (view "age") a false := (skips_iff hage).mpr ⟨rfl, hlast⟩
  have hcurrent := ((hbegin (view "age") a false _ hage).1.mp hskips).2
  refine ⟨race, _, hrun, hname, hcurrent, hskips, ?_⟩
  refine (hbegin (view "name") a false _ hname).2.1.mpr (Or.inr fun hother => ?_)
  have hsame := hlast.symm.trans ((lastUrl_eq_some_iff hrun).mpr hother)
  exact absurd hsame (by decide)

end Race

end TagCatalog
