import TagCatalog.Catalog.Refresh

/-!
# Refreshes at the Same Time

Several refreshes of one view can be under way. Here their steps are events
that come in any order: a refresh is begun, gets a reply, notices that it was
told to stop, or settles. A refresh that was told to stop may still settle
when its last reply was there first, so both are possible then.

## Main definitions

* `RaceEvent`: The steps of refreshes.
* `Race`: Refreshes under way and what became of the others.
* `Race.step?`: The state after an event, if the event can happen.
* `Race.run?`: The state after some events.
-/

namespace TagCatalog

/-- A refresh under way. -/
structure Pursuit where
  plan : RefreshPlan
  /-- Its number among all refreshes, without a bound as in `Refresher`. -/
  generation : Nat
  /-- Whether it was told to stop. -/
  cancelled : Bool
  /-- What it has still to ask. -/
  rest : Http.Call (Except CatalogError Preview)

/-- Where a refresh stands. -/
inductive RaceEntry where
  | running (p : Pursuit)
  /-- The refresh was begun as the given generation and ended. -/
  | ended (plan : RefreshPlan) (generation : Nat) (result : Except CatalogError Preview)
  /-- The refresh was skipped. -/
  | skipped (plan : RefreshPlan)
  /-- There was nothing that it could have asked for. -/
  | failed (error : ViewError)

/-- A step of a refresh, which is named by its place in the order of
    beginning. -/
inductive RaceEvent where
  | begin (view : View) (addressing : Addressing) (force : Bool)
  | reply (place : Nat) (reply : Http.Reply)
  /-- The refresh notices that it was told to stop. -/
  | notice (place : Nat)
  | settle (place : Nat)
  | invalidate

/-- Refreshes under way and what became of the others. -/
structure Race where
  refresher : Refresher := {}
  entries : List RaceEntry := []

/-- A refresh that is told to stop if it is the given generation. -/
def RaceEntry.cancel (generation : Option Nat) : RaceEntry → RaceEntry
  | running p => running { p with cancelled := p.cancelled || generation = some p.generation }
  | e => e

namespace Race

/-- The refresh at a place, if it is under way. -/
def running? (race : Race) (place : Nat) : Option Pursuit :=
  match race.entries[place]? with
  | some (.running p) => some p
  | _ => none

/-- Begin a refresh. -/
def start (client : Client) (race : Race) (view : View) (a : Addressing) (force : Bool) : Race :=
  match view.refreshPlan? a with
  | .error e => { race with entries := race.entries ++ [.failed e] }
  | .ok plan =>
    match race.refresher.issue plan.rows force with
    | none => { race with entries := race.entries ++ [.skipped plan] }
    | some refresher =>
      { refresher
        entries :=
          race.entries.map (RaceEntry.cancel race.refresher.token) ++
            [.running ⟨plan, refresher.generation, false, client.preview plan⟩] }

/-- The state after an event, if the event can happen. -/
def step? (client : Client) (race : Race) : RaceEvent → Option Race
  | .begin view a force => some (race.start client view a force)
  | .reply place reply =>
    match race.running? place with
    | some p =>
      match p.rest with
      | .ask _ next =>
        some { race with
          entries := race.entries.set place (.running { p with rest := next reply }) }
      | .done _ => none
    | none => none
  | .notice place =>
    match race.running? place with
    | some p =>
      if p.cancelled then
        some { race with
          entries := race.entries.set place (.ended p.plan p.generation (.error .superseded)) }
      else none
    | none => none
  | .settle place =>
    match race.running? place with
    | some p =>
      match p.rest with
      | .done result =>
        let (refresher, result) := race.refresher.settle p.generation result
        some
          { refresher
            entries := race.entries.set place (.ended p.plan p.generation result) }
      | .ask _ _ => none
    | none => none
  | .invalidate => some { race with refresher := race.refresher.invalidate }

/-- The state after some events, if all of them can happen. -/
def run? (client : Client) (race : Race) (events : List RaceEvent) : Option Race :=
  events.foldlM (fun race event => race.step? client event) race

end Race

end TagCatalog
