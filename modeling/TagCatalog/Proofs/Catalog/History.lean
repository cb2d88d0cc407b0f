import TagCatalog.Proofs.Catalog.Preview
import TagCatalog.Proofs.Catalog.Race

/-!
# What Events Tell about a Race

A race is what is left of its events. It keeps what each refresh has still to
ask, but not what it has asked, and not what it was begun with.

`Race.Recorded` puts the events back beside the race. The refreshes are the
ones that were begun, in that order and each with its own plan, and each of them
has come from its plan to where it stands by the replies that were addressed to
it. Replies to other refreshes have no part in that, which is what keeps
conversations apart that take place at the same time.

The record says nothing of a refresh that gave up or failed. What such a one
was told is of no use to anyone.

## Main definitions

* `RaceEvent.plans`: What the refreshes would ask for that some events begin.
* `RaceEvent.replies`: The replies among some events to one refresh.
* `Race.result?`: What a refresh returned.
* `Race.Recorded`: The events and the race fit together.

## Theorems

* `recorded_step`, `recorded_run`: Events and race fit together after every step
  and every run.
* `madeFrom_replies`: A preview is made from the replies to its own refresh.
-/

namespace TagCatalog

open Exchange Http

namespace RaceEvent

/-- The refresh that takes a step. -/
def place? : RaceEvent → Option Nat
  | reply place _ | notice place | settle place => some place
  | begin _ _ _ | invalidate => none

/-- What the refresh would ask for that an event begins, if it does. -/
def plan? : RaceEvent → Option (Except ViewError RefreshPlan)
  | begin view a _ => some (view.refreshPlan? a)
  | _ => none

/-- What the refreshes would ask for that some events begin, in their order. -/
def plans (events : List RaceEvent) : List (Except ViewError RefreshPlan) :=
  events.filterMap plan?

/-- The reply to the refresh at a place, if an event is one. -/
def replyTo? (place : Nat) : RaceEvent → Option Reply
  | reply i r => if i = place then some r else none
  | _ => none

/-- The replies among some events to the refresh at a place. -/
def replies (events : List RaceEvent) (place : Nat) : List Reply :=
  events.filterMap (replyTo? place)

section Concat

variable {events : List RaceEvent} {event : RaceEvent}

theorem plans_concat_of_none (h : event.plan? = none) :
    plans (events ++ [event]) = plans events := by
  rw [plans, List.filterMap_append, List.filterMap_cons_none h, List.filterMap_nil, List.append_nil,
    plans]

theorem plans_concat_begin (view : View) (a : Addressing) (force : Bool) :
    plans (events ++ [begin view a force]) = plans events ++ [view.refreshPlan? a] := by
  have h : (begin view a force).plan? = some (view.refreshPlan? a) := rfl
  rw [plans, List.filterMap_append, List.filterMap_cons_some h, List.filterMap_nil, plans]

theorem replies_concat_of_none {place : Nat} (h : event.replyTo? place = none) :
    replies (events ++ [event]) place = replies events place := by
  rw [replies, List.filterMap_append, List.filterMap_cons_none h, List.filterMap_nil,
    List.append_nil, replies]

theorem replies_concat_reply (place : Nat) (r : Reply) :
    replies (events ++ [reply place r]) place = replies events place ++ [r] := by
  have h : (reply place r).replyTo? place = some r := if_pos rfl
  rw [replies, List.filterMap_append, List.filterMap_cons_some h, List.filterMap_nil, replies]

end Concat

end RaceEvent

namespace RaceEntry

/-- What a refresh would ask for. -/
def plan : RaceEntry → Except ViewError RefreshPlan
  | running p => .ok p.plan
  | ended plan _ _ | skipped plan => .ok plan
  | failed e => .error e

/-- What a refresh returned, if it is over. -/
def result? : RaceEntry → Option (Except CatalogError (Option Preview))
  | running _ => none
  | ended _ _ result => some (result.map some)
  | skipped _ => some (.ok none)
  | failed e => some (.error (.view e))

/-- What is left to do of a refresh that has not given up or failed. -/
def rest? : RaceEntry → Option (Call (Except CatalogError Preview))
  | running p => some p.rest
  | ended _ _ (.ok preview) => some (.done (.ok preview))
  | _ => none

/-- A refresh has come from its plan to where it stands by some replies. -/
def Follows (client : Client) (replies : List Reply) (entry : RaceEntry) : Prop :=
  ∀ plan rest, entry.plan = .ok plan → entry.rest? = some rest →
    ∃ talk, talk.map Prod.snd = replies ∧ Talk (client.preview plan) talk rest

/-- A refresh that is told to stop stands where it stood. -/
theorem Follows.cancel {client : Client} {replies : List Reply} {entry : RaceEntry}
    (h : entry.Follows client replies) (token : Option Nat) :
    (entry.cancel token).Follows client replies := by
  cases entry with
  | running p => exact h
  | ended | skipped | failed => exact h

theorem follows_of_rest?_eq_none (client : Client) (replies : List Reply) {entry : RaceEntry}
    (h : entry.rest? = none) : entry.Follows client replies := by
  intro plan rest _ hrest
  rw [h] at hrest
  exact nomatch hrest

end RaceEntry

namespace Race

/-- What the refresh at a place returned, if it is over. -/
def result? (race : Race) (place : Nat) : Option (Except CatalogError (Option Preview)) :=
  race.entries[place]?.bind RaceEntry.result?

/-- The events so far and the race fit together. -/
structure Recorded (client : Client) (events : List RaceEvent) (race : Race) : Prop where
  plans : race.entries.map RaceEntry.plan = RaceEvent.plans events
  /-- Nothing was replied to a refresh that has not begun. -/
  early : ∀ place, race.entries.length ≤ place → RaceEvent.replies events place = []
  follows : ∀ (place : Nat) (entry : RaceEntry), race.entries[place]? = some entry →
    entry.Follows client (RaceEvent.replies events place)

namespace Recorded

variable {client : Client} {events : List RaceEvent} {race : Race} {event : RaceEvent}
  (hrace : race.Recorded client events)

include hrace

theorem length_eq : race.entries.length = (RaceEvent.plans events).length := by
  rw [← hrace.plans, List.length_map]

/-- Another refresh is over as it begins. -/
theorem add (entry : RaceEntry) (view : View) (a : Addressing) (force : Bool)
    (hplan : entry.plan = view.refreshPlan? a) (hrest : entry.rest? = none) :
    (race.add entry).Recorded client (events ++ [.begin view a force]) where
  plans := by
    rw [Race.add, List.map_append, hrace.plans, RaceEvent.plans_concat_begin, ← hplan]
    rfl
  early := by
    intro place hplace
    rw [Race.add, List.length_append, List.length_singleton] at hplace
    rw [RaceEvent.replies_concat_of_none rfl]
    exact hrace.early place (by omega)
  follows := by
    intro place e he
    rw [RaceEvent.replies_concat_of_none rfl]
    rcases (getElem?_add race entry place e).mp he with he | ⟨_, rfl⟩
    · exact hrace.follows place e he
    · exact RaceEntry.follows_of_rest?_eq_none client _ hrest

/-- Another refresh begins, with everything still to ask. -/
theorem issue (plan : RefreshPlan) (view : View) (a : Addressing) (force : Bool)
    (hplan : view.refreshPlan? a = .ok plan) :
    (race.issue client plan).Recorded client (events ++ [.begin view a force]) where
  plans := by
    have hcancel : (race.entries.map (RaceEntry.cancel race.refresher.token)).map RaceEntry.plan =
        race.entries.map RaceEntry.plan := by
      rw [List.map_map]
      refine List.map_congr_left fun e _ => ?_
      cases e <;> rfl
    rw [Race.issue, List.map_append, hcancel, hrace.plans, RaceEvent.plans_concat_begin, hplan]
    rfl
  early := by
    intro place hplace
    rw [Race.issue, List.length_append, List.length_map, List.length_singleton] at hplace
    rw [RaceEvent.replies_concat_of_none rfl]
    exact hrace.early place (by omega)
  follows := by
    intro place e he
    rw [RaceEvent.replies_concat_of_none rfl]
    rcases (getElem?_issue client race plan place e).mp he with ⟨old, hold, rfl⟩ | ⟨rfl, rfl⟩
    · exact (hrace.follows place old hold).cancel race.refresher.token
    · -- It has asked nothing yet, and nobody replied before it began.
      intro plan' rest hplan' hrest
      rw [RaceEntry.plan, Except.ok.injEq] at hplan'
      rw [RaceEntry.rest?, Option.some.injEq] at hrest
      subst hplan' hrest
      exact ⟨[], (hrace.early _ (Nat.le_refl _)).symm, .nil _⟩

/-- A refresh goes on or ends. The replies to the others are what they were. -/
theorem put (place : Nat) (p : Pursuit) (entry : RaceEntry)
    (hplace : race.entries[place]? = some (.running p)) (hplan : entry.plan = .ok p.plan)
    (hevent : event.plan? = none) (hothers : ∀ i, i ≠ place → event.replyTo? i = none)
    (hentry : entry.Follows client (RaceEvent.replies (events ++ [event]) place)) :
    (race.put place entry).Recorded client (events ++ [event]) where
  plans := by
    rw [map_put race place entry RaceEntry.plan (.running p) hplace hplan, hrace.plans,
      RaceEvent.plans_concat_of_none hevent]
  early := by
    intro i hi
    have hlt : place < race.entries.length := (List.getElem?_eq_some_iff.mp hplace).1
    rw [Race.put, List.length_set] at hi
    rw [RaceEvent.replies_concat_of_none (hothers i (by omega))]
    exact hrace.early i hi
  follows := by
    intro i e he
    rw [getElem?_put race place entry _ hplace] at he
    by_cases hi : place = i
    · rw [if_pos hi, Option.some.injEq] at he
      rw [← hi, ← he]
      exact hentry
    · rw [if_neg hi] at he
      rw [RaceEvent.replies_concat_of_none (hothers i fun h => hi h.symm)]
      exact hrace.follows i e he

/-- A refresh ends without a preview. -/
theorem give_up (place : Nat) (p : Pursuit) (entry : RaceEntry)
    (hplace : race.entries[place]? = some (.running p)) (hplan : entry.plan = .ok p.plan)
    (hrest : entry.rest? = none) (hevent : event.plan? = none)
    (hothers : ∀ i, event.replyTo? i = none) :
    (race.put place entry).Recorded client (events ++ [event]) :=
  hrace.put place p entry hplace hplan hevent (fun i _ => hothers i)
    (RaceEntry.follows_of_rest?_eq_none client _ hrest)

/-- The refresher has no part in the record. -/
theorem with_refresher (refresher : Refresher) :
    ({ race with refresher } : Race).Recorded client events :=
  ⟨hrace.plans, hrace.early, hrace.follows⟩

end Recorded

/-- Every step keeps events and race fitting together. -/
theorem recorded_step {client : Client} {events : List RaceEvent} {race after : Race}
    {event : RaceEvent} (hrace : race.Recorded client events) (h : race.Step client event after) :
    after.Recorded client (events ++ [event]) := by
  cases h with
  | unwritten view a force e hplan => exact hrace.add _ view a force hplan.symm rfl
  | skip view a plan hplan hlast => exact hrace.add _ view a false hplan.symm rfl
  | issue view a force plan hplan hnew => exact hrace.issue plan view a force hplan
  | reply place p reply request next hplace hrest =>
    refine hrace.put place p _ hplace rfl rfl (fun i hi => if_neg hi.symm) ?_
    -- The conversation has one more reply, which answers what was asked last.
    intro plan rest hplan hnext
    rw [RaceEntry.plan, Except.ok.injEq] at hplan
    rw [RaceEntry.rest?, Option.some.injEq] at hnext
    subst hplan hnext
    rcases hrace.follows place _ hplace p.plan p.rest rfl rfl with ⟨talk, htalk, hpath⟩
    rw [hrest] at hpath
    refine ⟨talk ++ [(request, reply)], ?_, hpath.snoc reply⟩
    rw [List.map_append, htalk, RaceEvent.replies_concat_reply]
    rfl
  | notice place p hplace htold => exact hrace.give_up place p _ hplace rfl rfl rfl fun _ => rfl
  | deliver place p preview hplace hrest hlatest =>
    refine (hrace.put place p _ hplace rfl rfl (fun _ _ => rfl) ?_).with_refresher _
    rw [RaceEvent.replies_concat_of_none rfl]
    -- The preview is what the refresh was left with.
    intro plan rest hplan hdone
    rw [RaceEntry.plan, Except.ok.injEq] at hplan
    rw [RaceEntry.rest?, Option.some.injEq] at hdone
    subst hplan hdone
    rw [← hrest]
    exact hrace.follows place _ hplace p.plan p.rest rfl rfl
  | fail place p e hplace hrest hlatest =>
    exact (hrace.give_up place p _ hplace rfl rfl rfl fun _ => rfl).with_refresher _
  | late place p result hplace hrest hlate =>
    exact hrace.give_up place p _ hplace rfl rfl rfl fun _ => rfl
  | invalidate =>
    have hsame : race.Recorded client (events ++ [.invalidate]) := by
      refine ⟨?_, fun place hplace => ?_, fun place entry hentry => ?_⟩
      · rw [RaceEvent.plans_concat_of_none rfl]
        exact hrace.plans
      · rw [RaceEvent.replies_concat_of_none rfl]
        exact hrace.early place hplace
      · rw [RaceEvent.replies_concat_of_none rfl]
        exact hrace.follows place entry hentry
    exact hsame.with_refresher _

theorem recorded_run (client : Client) (events : List RaceEvent) (race : Race)
    (h : run? client {} events = some race) : race.Recorded client events := by
  refine run?_induction (P := fun events race => race.Recorded client events) ?_ ?_ events race h
  · exact ⟨rfl, fun _ _ => rfl, fun _ _ h => absurd h (Option.some_ne_none _).symm⟩
  · exact fun _ _ _ _ hrace hstep => recorded_step hrace hstep

/-- A refresh that returned a preview was under way until it had one. -/
theorem result?_eq_preview_iff (race : Race) (place : Nat) (preview : Preview) :
    race.result? place = some (.ok (some preview)) ↔
      ∃ plan generation, race.entries[place]? = some (.ended plan generation (.ok preview)) := by
  rw [result?, Option.bind_eq_some_iff]
  constructor
  · rintro ⟨entry, hentry, hresult⟩
    cases entry with
    | running | skipped | failed => exact nomatch hresult
    | ended plan generation result =>
      cases result with
      | error e => exact nomatch hresult
      | ok p =>
        rw [RaceEntry.result?, Except.map, Option.some.injEq, Except.ok.injEq,
          Option.some.injEq] at hresult
        subst hresult
        exact ⟨plan, generation, hentry⟩
  · rintro ⟨plan, generation, hentry⟩
    exact ⟨_, hentry, rfl⟩

/-- A preview is made from what was replied to its own refresh. -/
theorem madeFrom_replies {client : Client} {events : List RaceEvent} {race : Race} {place : Nat}
    {preview : Preview} (hrace : race.Recorded client events)
    (h : race.result? place = some (.ok (some preview))) :
    ∃ plan talk, (RaceEvent.plans events)[place]? = some (.ok plan) ∧
      talk.map Prod.snd = RaceEvent.replies events place ∧
      Talk (client.preview plan) talk (.done (.ok preview)) ∧ preview.MadeFrom plan talk := by
  rcases (result?_eq_preview_iff race place preview).mp h with ⟨plan, generation, hentry⟩
  rcases hrace.follows place _ hentry plan _ rfl rfl with ⟨talk, htalk, hpath⟩
  refine ⟨plan, talk, ?_, htalk, hpath, preview.madeFrom_of_talk client plan talk hpath⟩
  rw [← hrace.plans, List.getElem?_map, hentry]
  rfl

end Race

end TagCatalog
