import TagCatalog.Proofs.Catalog.History

/-!
# Previews of Overtaken Refreshes

No refresh delivers a preview after another one was issued.

What can become of a refresh by a step of its own is said by `own_step`: it goes
on, or it gives up and leaves the refresher alone, or it is the latest one and
returns what it has got. The order in which replies arrive plays no part, and
neither does the choice that a refresh has that was told to stop while its last
reply was already there. Either way it gives up.

The rest follows from that and from the numbers of refreshes. An overtaken
refresh has a lower number than the refresher, so the third way is closed to
it, now and for the rest of the run, which is `lost_run`. And since a delivery
uses up the highest number, whatever is delivered later has a higher one, so
previews arrive in the order in which they were asked for.

`delivers_latest` is the summary for a run from the beginning.

## Main definitions

* `Race.Lost`: A refresh that was overtaken while it was under way.
* `Race.delivery?`, `Race.deliveries`: What a step and a run deliver.

## Theorems

* `own_step`, `outcome_step`: What becomes of a refresh in a step of its own and
  in any step.
* `over_of_step`: How a refresh came to be over.
* `lost_step`, `lost_run`: An overtaken refresh gives up.
* `deliveries_above`: What is delivered after a refresh has ended has a higher
  number.
* `deliveries_increasing`: Previews are delivered in the order of numbers.
* `mem_deliveries`: All that refreshes return in a run is delivered by it.
* `delivers_latest`: Only the latest refresh delivers, and only its own preview.
-/

namespace TagCatalog

open Exchange

namespace Race

section Outcome

variable {client : Client} {race after : Race} {event : RaceEvent} {place : Nat} {p : Pursuit}

/-- What becomes of a refresh by a step of its own: it goes on, it gives up
    without a trace, or it was the latest one and returns what it has got. -/
theorem own_step (h : race.Step client event after) (hevent : event.place? = some place) :
    ∃ p new, race.entries[place]? = some (.running p) ∧
      after.entries = (race.put place new).entries ∧
      ((∃ q, new = .running q ∧ q.generation = p.generation ∧
          after.refresher = race.refresher) ∨
        (new = .ended p.plan p.generation (.error .superseded) ∧
          after.refresher = race.refresher) ∨
        ∃ result, new = .ended p.plan p.generation result ∧ p.rest = .done result ∧
          race.refresher.generation = p.generation ∧
          after.refresher.generation = race.refresher.generation) := by
  cases h with
  | unwritten | skip | issue | invalidate => exact nomatch hevent
  | reply i p reply request next hplace hrest =>
    rw [← Option.some.inj hevent]
    exact ⟨p, _, hplace, rfl, Or.inl ⟨_, rfl, rfl, rfl⟩⟩
  | notice i p hplace htold =>
    rw [← Option.some.inj hevent]
    exact ⟨p, _, hplace, rfl, Or.inr (Or.inl ⟨rfl, rfl⟩)⟩
  | deliver i p preview hplace hrest hlatest =>
    rw [← Option.some.inj hevent]
    exact ⟨p, _, hplace, rfl, Or.inr (Or.inr ⟨_, rfl, hrest, hlatest, rfl⟩)⟩
  | fail i p e hplace hrest hlatest =>
    rw [← Option.some.inj hevent]
    exact ⟨p, _, hplace, rfl, Or.inr (Or.inr ⟨_, rfl, hrest, hlatest, rfl⟩)⟩
  | late i p result hplace hrest hlate =>
    rw [← Option.some.inj hevent]
    exact ⟨p, _, hplace, rfl, Or.inr (Or.inl ⟨rfl, rfl⟩)⟩

/-- A step of another refresh can do no more to a refresh than tell it to stop. -/
theorem untouched_step {entry : RaceEntry} (h : race.Step client event after)
    (hevent : event.place? ≠ some place) (hplace : race.entries[place]? = some entry) :
    after.entries[place]? = some entry ∨
      ∃ token, after.entries[place]? = some (entry.cancel token) := by
  cases hi : event.place? with
  | some i =>
    -- Only the entry of the refresh that takes the step changes.
    have hne : i ≠ place := fun heq => hevent (hi.trans (congrArg some heq))
    rcases own_step h hi with ⟨p, new, hp, hafter, _⟩
    rw [hafter, getElem?_put race i new _ hp, if_neg hne]
    exact Or.inl hplace
  | none =>
    -- What begins stands at the end, and an invalidation touches no refresh.
    cases h with
    | unwritten | skip => exact Or.inl ((getElem?_add race _ place _).mpr (Or.inl hplace))
    | issue view a force plan hplan hnew =>
      have hentry := (getElem?_issue client race plan place _).mpr (Or.inl ⟨entry, hplace, rfl⟩)
      exact Or.inr ⟨_, hentry⟩
    | reply | notice | deliver | fail | late => exact nomatch hi
    | invalidate => exact Or.inl hplace

/-- What becomes of a refresh under way in any step. -/
theorem outcome_step (hplace : race.entries[place]? = some (.running p))
    (h : race.Step client event after) :
    (∃ q, after.entries[place]? = some (.running q) ∧ q.generation = p.generation ∧
      (event.place? = some place → after.refresher = race.refresher)) ∨
    (after.entries[place]? = some (.ended p.plan p.generation (.error .superseded)) ∧
      after.refresher = race.refresher) ∨
    ∃ result, after.entries[place]? = some (.ended p.plan p.generation result) ∧
      p.rest = .done result ∧ race.refresher.generation = p.generation ∧
      after.refresher.generation = race.refresher.generation := by
  by_cases hevent : event.place? = some place
  · rcases own_step h hevent with ⟨q, new, hq, hafter, hnew⟩
    rw [hplace, Option.some.injEq, RaceEntry.running.injEq] at hq
    subst hq
    rw [hafter, getElem?_put race place new _ hplace, if_pos rfl]
    rcases hnew with ⟨q, rfl, hsame, hkept⟩ | ⟨rfl, hkept⟩ | ⟨result, rfl, hlatest⟩
    · exact Or.inl ⟨q, rfl, hsame, fun _ => hkept⟩
    · exact Or.inr (Or.inl ⟨rfl, hkept⟩)
    · exact Or.inr (Or.inr ⟨result, rfl, hlatest⟩)
  · left
    rcases untouched_step h hevent hplace with hsame | ⟨token, htold⟩
    · exact ⟨p, hsame, rfl, fun heq => absurd heq hevent⟩
    · exact ⟨_, htold, rfl, fun heq => absurd heq hevent⟩

/-- A refresh that ended stays as it ended. -/
theorem ended_step {plan : RefreshPlan} {g : Nat} {result : Except CatalogError Preview}
    (hplace : race.entries[place]? = some (.ended plan g result))
    (h : race.Step client event after) :
    after.entries[place]? = some (.ended plan g result) := by
  have hevent : event.place? ≠ some place := by
    intro heq
    rcases own_step h heq with ⟨p, _, hp, _⟩
    exact nomatch hplace.symm.trans hp
  rcases untouched_step h hevent hplace with hsame | ⟨token, htold⟩
  · exact hsame
  · exact htold

/-- A refresh that is over after a step was so before, or this was its last
    step, or it was over as it began. -/
theorem over_of_step {entry : RaceEntry} (h : race.Step client event after)
    (hentry : after.entries[place]? = some entry) (hover : ∀ p, entry ≠ .running p) :
    race.entries[place]? = some entry ∨
    (event.place? = some place ∧ ∃ plan g result, entry = .ended plan g result) ∨
    place = race.entries.length ∧
      ((∃ e, entry = .failed e) ∨
        ∃ view a plan, event = .begin view a false ∧ view.refreshPlan? a = .ok plan ∧
          race.refresher.lastUrl = some plan.rows ∧ entry = .skipped plan) := by
  cases hi : event.place? with
  | some i =>
    rcases own_step h hi with ⟨p, new, hp, hafter, hnew⟩
    rw [hafter, getElem?_put race i new _ hp] at hentry
    by_cases heq : i = place
    · rw [if_pos heq, Option.some.injEq] at hentry
      subst hentry
      rcases hnew with ⟨q, hq, _⟩ | ⟨hended, _⟩ | ⟨result, hended, _⟩
      · exact absurd hq (hover q)
      · exact Or.inr (Or.inl ⟨congrArg some heq, _, _, _, hended⟩)
      · exact Or.inr (Or.inl ⟨congrArg some heq, _, _, _, hended⟩)
    · rw [if_neg heq] at hentry
      exact Or.inl hentry
  | none =>
    cases h with
    | unwritten view a force e hplan =>
      rcases (getElem?_add race _ place _).mp hentry with hold | ⟨hplace, rfl⟩
      · exact Or.inl hold
      · exact Or.inr (Or.inr ⟨hplace, Or.inl ⟨e, rfl⟩⟩)
    | skip view a plan hplan hlast =>
      rcases (getElem?_add race _ place _).mp hentry with hold | ⟨hplace, rfl⟩
      · exact Or.inl hold
      · exact Or.inr (Or.inr ⟨hplace, Or.inr ⟨view, a, plan, rfl, hplan, hlast, rfl⟩⟩)
    | issue view a force plan hplan hnew =>
      rcases (getElem?_issue client race plan place _).mp hentry with
        ⟨old, hold, hcancel⟩ | ⟨_, hnew⟩
      · cases old with
        | running p => exact absurd hcancel.symm (hover _)
        | ended | skipped | failed => exact Or.inl (hcancel ▸ hold)
      · exact absurd hnew.symm (hover _)
    | reply | notice | deliver | fail | late => exact nomatch hi
    | invalidate => exact Or.inl hentry

end Outcome

section Overtaken

variable {client : Client} {race after final : Race} {event : RaceEvent} {place : Nat}

/-- A refresh keeps its number. -/
theorem generationAt?_step {g : Nat} (hplace : race.generationAt? place = some g)
    (h : race.Step client event after) : after.generationAt? place = some g := by
  rcases (generationAt?_eq_some_iff race place g).mp hplace with ⟨entry, hentry, hg⟩
  cases entry with
  | running p =>
    rw [RaceEntry.generation?, Option.some.injEq] at hg
    subst hg
    rcases outcome_step hentry h with ⟨q, hq, hsame, _⟩ | ⟨hgone, _⟩ | ⟨result, hgot, _⟩
    · exact (generationAt?_eq_some_iff after place _).mpr ⟨_, hq, congrArg some hsame⟩
    · exact (generationAt?_eq_some_iff after place _).mpr ⟨_, hgone, rfl⟩
    · exact (generationAt?_eq_some_iff after place _).mpr ⟨_, hgot, rfl⟩
  | ended plan generation result =>
    exact (generationAt?_eq_some_iff after place g).mpr ⟨_, ended_step hentry h, hg⟩
  | skipped | failed => exact nomatch hg

theorem isOvertaken_step (hplace : race.IsOvertaken place) (h : race.Step client event after) :
    after.IsOvertaken place := by
  rcases hplace with ⟨later, hlt, hsome⟩
  rcases Option.isSome_iff_exists.mp hsome with ⟨g, hg⟩
  exact ⟨later, hlt, Option.isSome_iff_exists.mpr ⟨g, generationAt?_step hg h⟩⟩

/-- A refresh that was overtaken while it was under way. It may be under way
    still, but there is only one way for it to end. -/
structure Lost (race : Race) (place : Nat) : Prop where
  overtaken : race.IsOvertaken place
  state : (∃ p, race.entries[place]? = some (.running p)) ∨
    ∃ plan g, race.entries[place]? = some (.ended plan g (.error .superseded))

/-- The third outcome is closed to a refresh that was overtaken. -/
theorem outcome_overtaken {p : Pursuit} (hrace : race.Coherent) (hover : race.IsOvertaken place)
    (hplace : race.entries[place]? = some (.running p)) (h : race.Step client event after) :
    ((∃ q, after.entries[place]? = some (.running q)) ∨
      after.entries[place]? = some (.ended p.plan p.generation (.error .superseded))) ∧
    (event.place? = some place → after.refresher = race.refresher) := by
  rcases outcome_step hplace h with ⟨q, hq, _, hkept⟩ | ⟨hgone, hkept⟩ | ⟨result, _, _, hlatest, _⟩
  · exact ⟨Or.inl ⟨q, hq⟩, hkept⟩
  · exact ⟨Or.inr hgone, fun _ => hkept⟩
  · -- It would have to be the latest one, but its number is too low.
    have hnumber : race.generationAt? place = some p.generation :=
      (generationAt?_eq_some_iff race place _).mpr ⟨_, hplace, rfl⟩
    have hlt := (hrace.isOvertaken_iff hnumber).mp hover
    omega

/-- Once lost, a refresh stays so. -/
theorem lost_step (hrace : race.Coherent) (hlost : race.Lost place)
    (h : race.Step client event after) : after.Lost place := by
  refine ⟨isOvertaken_step hlost.overtaken h, ?_⟩
  rcases hlost.state with ⟨p, hp⟩ | ⟨plan, g, hended⟩
  · rcases (outcome_overtaken hrace hlost.overtaken hp h).1 with hgoes | hgone
    · exact Or.inl hgoes
    · exact Or.inr ⟨_, _, hgone⟩
  · exact Or.inr ⟨plan, g, ended_step hended h⟩

theorem lost_run (more : List RaceEvent) (hrace : race.Coherent) (hlost : race.Lost place)
    (h : race.run? client more = some final) : final.Lost place := by
  induction more generalizing race with
  | nil =>
    rw [← Option.some.inj h]
    exact hlost
  | cons event more ih =>
    rcases (run?_cons_eq_some_iff client race final event more).mp h with ⟨after, hstep, hrest⟩
    exact ih (coherent_step hrace hstep) (lost_step hrace hlost hstep) hrest

/-- All that a lost refresh can return is that it was superseded. -/
theorem Lost.result? (hlost : race.Lost place) :
    race.result? place = none ∨ race.result? place = some (.error .superseded) := by
  rw [Race.result?]
  rcases hlost.state with ⟨p, hp⟩ | ⟨plan, g, hended⟩
  · rw [hp]
    exact Or.inl rfl
  · rw [hended]
    exact Or.inr rfl

/-- A refresh that was overtaken can give up at any time: it was told to. -/
theorem step?_notice {p : Pursuit} (hrace : race.Coherent) (hover : race.IsOvertaken place)
    (hplace : race.entries[place]? = some (.running p)) :
    race.step? client (.notice place) =
      some (race.put place (.ended p.plan p.generation (.error .superseded))) := by
  have hnumber : race.generationAt? place = some p.generation :=
    (generationAt?_eq_some_iff race place _).mpr ⟨_, hplace, rfl⟩
  have htold := (hrace.told place p hplace).mpr ((hrace.isOvertaken_iff hnumber).mp hover)
  exact step?_eq_some_iff.mpr (.notice place p hplace htold)

end Overtaken

/-- What a step delivers, with the number of its refresh. -/
def delivery? (after : Race) (event : RaceEvent) : Option (Nat × Preview) :=
  event.place?.bind fun place =>
    match after.entries[place]? with
    | some (.ended _ generation (.ok preview)) => some (generation, preview)
    | _ => none

/-- What events deliver from a race on, in the order in which it is delivered. -/
def deliveries (client : Client) (race : Race) : List RaceEvent → List (Nat × Preview)
  | [] => []
  | event :: events =>
    match race.step? client event with
    | some after => (after.delivery? event).toList ++ after.deliveries client events
    | none => []

section Deliveries

variable {client : Client} {race after final : Race} {event : RaceEvent} {g : Nat}
  {plan : RefreshPlan} {preview : Preview}

theorem delivery?_eq_some_iff (after : Race) (event : RaceEvent) (g : Nat) (preview : Preview) :
    after.delivery? event = some (g, preview) ↔
      ∃ place plan, event.place? = some place ∧
        after.entries[place]? = some (.ended plan g (.ok preview)) := by
  rw [delivery?, Option.bind_eq_some_iff]
  constructor
  · rintro ⟨place, hevent, h⟩
    split at h
    · next plan generation got hentry =>
      rw [Option.some.injEq, Prod.mk.injEq] at h
      exact ⟨place, plan, hevent, h.1 ▸ h.2 ▸ hentry⟩
    · exact nomatch h
  · rintro ⟨place, plan, hevent, hentry⟩
    exact ⟨place, hevent, by rw [hentry]⟩

/-- What is delivered is the preview of the latest refresh. -/
theorem latest_of_delivery (h : race.Step client event after)
    (hgot : after.delivery? event = some (g, preview)) :
    ∃ (place : Nat) (p : Pursuit), race.entries[place]? = some (.running p) ∧ p.generation = g ∧
      race.refresher.generation = g := by
  rcases (delivery?_eq_some_iff after event g preview).mp hgot with ⟨place, plan, hevent, hended⟩
  rcases own_step h hevent with ⟨p, _, hp, _⟩
  refine ⟨place, p, hp, ?_⟩
  rcases outcome_step hp h with ⟨q, hq, _⟩ | ⟨hgone, _⟩ | ⟨result, hend, _, hlatest, _⟩
  · exact nomatch hended.symm.trans hq
  · exact nomatch hended.symm.trans hgone
  · rw [hended, Option.some.injEq, RaceEntry.ended.injEq] at hend
    exact ⟨hend.2.1.symm, hlatest.trans hend.2.1.symm⟩

/-- What is delivered after a refresh has ended has a higher number. -/
theorem deliveries_above {place : Nat} {result : Except CatalogError Preview}
    (events : List RaceEvent) (hrace : race.Coherent)
    (hended : race.entries[place]? = some (.ended plan g result)) :
    ∀ d ∈ race.deliveries client events, g < d.1 := by
  induction events generalizing race with
  | nil => exact fun d hd => absurd hd List.not_mem_nil
  | cons event events ih =>
    rw [deliveries]
    split
    · next after hafter =>
      have hstep := step?_eq_some_iff.mp hafter
      intro d hd
      rcases List.mem_append.mp hd with hnow | hlater
      · rw [Option.mem_toList] at hnow
        rcases latest_of_delivery hstep hnow with ⟨i, p, hp, hnumber, hlatest⟩
        have hg : race.generationAt? place = some g :=
          (generationAt?_eq_some_iff race place g).mpr ⟨_, hended, rfl⟩
        have hle := hrace.generation_le hg
        refine Nat.lt_of_le_of_ne (hlatest ▸ hle) fun heq => ?_
        -- Two refreshes with one number would be the same, but one is under way.
        have hi : race.generationAt? i = some g :=
          (generationAt?_eq_some_iff race i g).mpr ⟨_, hp, congrArg some (hnumber.trans heq.symm)⟩
        rw [hrace.place_unique hi hg] at hp
        exact nomatch hended.symm.trans hp
      · exact ih (coherent_step hrace hstep) (ended_step hended hstep) d hlater
    · exact fun d hd => absurd hd List.not_mem_nil

/-- Previews are delivered in the order in which the refreshes were issued. -/
theorem deliveries_increasing (events : List RaceEvent) (hrace : race.Coherent) :
    ((race.deliveries client events).map Prod.fst).Pairwise (· < ·) := by
  induction events generalizing race with
  | nil => exact List.Pairwise.nil
  | cons event events ih =>
    rw [deliveries]
    split
    · next after hafter =>
      have hstep := step?_eq_some_iff.mp hafter
      have hrest := ih (coherent_step hrace hstep)
      cases hnow : after.delivery? event with
      | none => exact hrest
      | some d =>
        -- The refresh that delivers now has ended, so the others come above it.
        rcases (delivery?_eq_some_iff after event d.1 d.2).mp hnow with ⟨i, plan, _, hended⟩
        refine List.pairwise_cons.mpr ⟨fun g hg => ?_, hrest⟩
        rcases List.mem_map.mp hg with ⟨later, hlater, rfl⟩
        exact deliveries_above events (coherent_step hrace hstep) hended later hlater
    · exact List.Pairwise.nil

/-- What a refresh returned in a run is among what the run delivered. -/
theorem mem_deliveries {place : Nat} (events : List RaceEvent)
    (h : race.run? client events = some final)
    (hended : final.entries[place]? = some (.ended plan g (.ok preview))) :
    race.entries[place]? = some (.ended plan g (.ok preview)) ∨
      (g, preview) ∈ race.deliveries client events := by
  induction events generalizing race with
  | nil =>
    rw [← Option.some.inj h] at hended
    exact Or.inl hended
  | cons event events ih =>
    rcases (run?_cons_eq_some_iff client race final event events).mp h with ⟨after, hstep, hrest⟩
    rw [deliveries, step?_eq_some_iff.mpr hstep]
    -- It was returned later on, or it was there after this step. In that case it
    -- was there before, or this is the step that delivered it.
    rcases ih hrest with hthen | hlater
    · rcases over_of_step hstep hthen (fun p hp => nomatch hp) with
        hbefore | ⟨hevent, _⟩ | ⟨_, ⟨e, he⟩ | ⟨_, _, _, _, _, _, he⟩⟩
      · exact Or.inl hbefore
      · have hnow : after.delivery? event = some (g, preview) :=
          (delivery?_eq_some_iff after event g preview).mpr ⟨place, plan, hevent, hthen⟩
        exact Or.inr (List.mem_append_left _ (Option.mem_toList.mpr hnow))
      · exact nomatch he
      · exact nomatch he
    · exact Or.inr (List.mem_append_right _ hlater)

end Deliveries

/-- No preview is stale. In every run previews are delivered in the order of
    their numbers, and each is made from the replies to its own refresh. A
    refresh that returns one has not been overtaken; one that was overtaken
    changes nothing any more, and gives up. -/
theorem delivers_latest (client : Client) (events : List RaceEvent) (race : Race)
    (hrun : run? client {} events = some race) :
    ((deliveries client {} events).map Prod.fst).Pairwise (· < ·) ∧
    (∀ place preview, race.result? place = some (.ok (some preview)) →
      (∃ g, race.generationAt? place = some g ∧ (g, preview) ∈ deliveries client {} events) ∧
      ∃ plan talk, (RaceEvent.plans events)[place]? = some (.ok plan) ∧
        talk.map Prod.snd = RaceEvent.replies events place ∧
        Talk (client.preview plan) talk (.done (.ok preview)) ∧ preview.MadeFrom plan talk) ∧
    ∀ place p, race.running? place = some p →
      (∀ event after preview, race.step? client event = some after →
        after.result? place = some (.ok (some preview)) → ¬ race.IsOvertaken place) ∧
      (race.IsOvertaken place →
        (∃ after, race.step? client (.notice place) = some after ∧
          after.result? place = some (.error .superseded)) ∧
        (∀ event after, event.place? = some place → race.step? client event = some after →
          after.refresher = race.refresher) ∧
        ∀ more final, race.run? client more = some final →
          final.result? place = none ∨ final.result? place = some (.error .superseded)) := by
  have hrace := coherent_run client events race hrun
  refine ⟨deliveries_increasing events coherent_empty, fun place preview hgot => ?_,
    fun place p hp => ?_⟩
  · refine ⟨?_, madeFrom_replies (recorded_run client events race hrun) hgot⟩
    rcases (result?_eq_preview_iff race place preview).mp hgot with ⟨plan, g, hended⟩
    refine ⟨g, (generationAt?_eq_some_iff race place g).mpr ⟨_, hended, rfl⟩, ?_⟩
    rcases mem_deliveries events hrun hended with hstart | hmem
    · exact absurd hstart (Option.some_ne_none _).symm
    · exact hmem
  · have hplace := (running?_eq_some_iff race place p).mp hp
    -- A refresh that was overtaken is lost, and that is all that there is to say.
    refine ⟨fun event after preview hstep hgot hover => ?_, fun hover => ⟨?_, ?_, ?_⟩⟩
    · have hlost := lost_step hrace ⟨hover, Or.inl ⟨p, hplace⟩⟩ (step?_eq_some_iff.mp hstep)
      rcases hlost.result? with hnone | hgone
      · exact nomatch hgot.symm.trans hnone
      · exact nomatch hgot.symm.trans hgone
    · refine ⟨_, step?_notice hrace hover hplace, ?_⟩
      rw [result?, getElem?_put race place _ _ hplace, if_pos rfl]
      rfl
    · exact fun event after hevent hstep =>
        (outcome_overtaken hrace hover hplace (step?_eq_some_iff.mp hstep)).2 hevent
    · exact fun more final hmore =>
        (lost_run more hrace ⟨hover, Or.inl ⟨p, hplace⟩⟩ hmore).result?

/-- Of two refreshes the first one gives up, although its replies were there
    before the second one had any. -/
theorem delivers_latest_of_two :
    let client : Client := ⟨"h", 1⟩
    let a : Addressing := ⟨"h/", .empty, .utc, {}, none⟩
    let view (column : String) : View := { columns := [column], page := ⟨0, ⟨10, by decide⟩⟩ }
    let events : List RaceEvent :=
      [.begin (view "name") a false,
        .reply 0 (.response { status := 200, body := "[\x7b\"id\":0\x7d]" }),
        .begin (view "age") a false, .reply 1 (.response { status := 503, body := "" }),
        .reply 1 (.response { status := 200, body := "[\x7b\"id\":0\x7d]" }), .settle 1]
    ∃ race, run? client {} events = some race ∧
      (∃ preview, race.result? 1 = some (.ok (some preview)) ∧
        preview.url = "h/(age;id)?versions=latest&limit=10&offset=0" ∧
        (2, preview) ∈ deliveries client {} events) ∧
      (∃ after, race.step? client (.settle 0) = some after ∧ after.refresher = race.refresher) ∧
      ∀ more final, race.run? client more = some final →
        final.result? 0 = none ∨ final.result? 0 = some (.error .superseded) := by
  intro client a view events
  have hstate : (run? client {} events).any (fun race =>
      (race.running? 0).isSome && (race.step? client (.settle 0)).isSome &&
        race.generationAt? 1 = some 2 &&
        ((race.result? 1).bind fun result => result.toOption.join).map Preview.url =
          some "h/(age;id)?versions=latest&limit=10&offset=0") = true := by decide +kernel
  rw [Option.any_eq_true] at hstate
  rcases hstate with ⟨race, hrun, hstate⟩
  simp only [Bool.and_eq_true, decide_eq_true_eq] at hstate
  rcases hstate with ⟨⟨⟨hrunning, hsettle⟩, hnumber⟩, hgot⟩
  rcases delivers_latest client events race hrun with ⟨_, hdelivered, hpending⟩
  rcases Option.isSome_iff_exists.mp hrunning with ⟨p, hp⟩
  rcases Option.isSome_iff_exists.mp hsettle with ⟨after, hafter⟩
  have hover : race.IsOvertaken 0 := ⟨1, by decide, by rw [hnumber]; rfl⟩
  rcases (hpending 0 p hp).2 hover with ⟨_, hkept, hlost⟩
  rcases Option.map_eq_some_iff.mp hgot with ⟨preview, hpreview, hurl⟩
  rcases Option.bind_eq_some_iff.mp hpreview with ⟨result, hresult, hjoin⟩
  have hok : result = .ok (some preview) := by
    cases result with
    | error e => exact nomatch hjoin
    | ok got => exact congrArg _ hjoin
  rw [hok] at hresult
  rcases (hdelivered 1 preview hresult).1 with ⟨g, hg, hmem⟩
  rw [hnumber, Option.some.injEq] at hg
  exact ⟨race, hrun, ⟨preview, hresult, hurl, hg ▸ hmem⟩,
    ⟨after, hafter, hkept _ after rfl hafter⟩, hlost⟩

end Race

end TagCatalog
