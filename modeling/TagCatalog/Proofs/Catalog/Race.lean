import Mathlib.Data.List.Induction
import TagCatalog.Catalog.Race

/-!
# Invariant of Races

What holds between the refresher and the refreshes under way, whatever the
order of their steps.

Two guards keep an overtaken refresh from delivering. One tells it to stop at
the moment another one is issued, the other compares generations when it
settles. They are kept by different steps, and neither knows of the other: the
token that is told to stop is whichever one the refresher remembers, and a
refresh that ends takes its token away only if it is the latest one.
`Race.Coherent` says what fits together nevertheless. Generations count the
refreshes that were issued, in the order in which they began; a refresh has
been told to stop exactly if it is not the latest one; and the latest one, as
long as it is under way, is the one that would be told next.

`Race.Step` lists what an event can do, one constructor for each way it can
go. Every statement about races is an induction over it, so that `Race.step?`
itself is opened once, in `step?_eq_some_iff`.

A race remembers the refreshes in the order in which they began. So whether a
refresh has been overtaken can be read off the race: another one that was
issued stands behind it. By `Coherent.isOvertaken_iff` that is what the
comparison of generations finds out.

## Main definitions

* `RaceEntry.generation?`: The number under which a refresh was issued.
* `Race.Step`: What an event does.
* `Race.IsOvertaken`: Another refresh was issued after one.
* `Race.IsLatest`: A refresh is the last one that was issued.
* `Race.Coherent`: The invariant.

## Theorems

* `step?_eq_some_iff`: The steps of a race.
* `getElem?_put`, `getElem?_add`, `getElem?_issue`: The refreshes after a change.
* `Coherent.isOvertaken_iff`, `Coherent.isLatest_iff`: What the generation of a
  refresh tells.
* `coherent_step`: Every step keeps the invariant.
* `run?_induction`: Induction over the events of a run.
* `coherent_run`: The invariant of a run.
-/

namespace TagCatalog

namespace RaceEntry

/-- The number under which a refresh was issued, if it was. -/
def generation? : RaceEntry → Option Nat
  | running p => some p.generation
  | ended _ generation _ => some generation
  | skipped _ | failed _ => none

theorem generation?_cancel (token : Option Nat) (entry : RaceEntry) :
    (entry.cancel token).generation? = entry.generation? := by
  cases entry <;> rfl

end RaceEntry

namespace Race

/-- Put the state of the refresh at a place. -/
def put (race : Race) (place : Nat) (entry : RaceEntry) : Race :=
  { race with entries := race.entries.set place entry }

/-- Add a refresh that is over as it begins. -/
def add (race : Race) (entry : RaceEntry) : Race :=
  { race with entries := race.entries ++ [entry] }

/-- Issue a refresh and tell the one before to stop. -/
def issue (client : Client) (race : Race) (plan : RefreshPlan) : Race where
  refresher :=
    { lastUrl := some plan.rows
      generation := race.refresher.generation + 1
      token := some (race.refresher.generation + 1) }
  entries :=
    race.entries.map (RaceEntry.cancel race.refresher.token) ++
      [.running ⟨plan, race.refresher.generation + 1, false, client.preview plan⟩]

/-- What an event does to a race. -/
inductive Step (client : Client) (race : Race) : RaceEvent → Race → Prop
  /-- The addresses of a refresh cannot be written. -/
  | unwritten (view : View) (a : Addressing) (force : Bool) (e : ViewError)
      (hplan : view.refreshPlan? a = .error e) :
      Step client race (.begin view a force) (race.add (.failed e))
  | skip (view : View) (a : Addressing) (plan : RefreshPlan)
      (hplan : view.refreshPlan? a = .ok plan)
      (hlast : race.refresher.lastUrl = some plan.rows) :
      Step client race (.begin view a false) (race.add (.skipped plan))
  | issue (view : View) (a : Addressing) (force : Bool) (plan : RefreshPlan)
      (hplan : view.refreshPlan? a = .ok plan)
      (hnew : force = true ∨ race.refresher.lastUrl ≠ some plan.rows) :
      Step client race (.begin view a force) (race.issue client plan)
  | reply (place : Nat) (p : Pursuit) (reply : Http.Reply) (request : Http.Request)
      (next : Http.Reply → Http.Call (Except CatalogError Preview))
      (hplace : race.entries[place]? = some (.running p)) (hrest : p.rest = .ask request next) :
      Step client race (.reply place reply)
        (race.put place (.running { p with rest := next reply }))
  | notice (place : Nat) (p : Pursuit) (hplace : race.entries[place]? = some (.running p))
      (htold : p.cancelled = true) :
      Step client race (.notice place)
        (race.put place (.ended p.plan p.generation (.error .superseded)))
  /-- The latest refresh has got a preview. -/
  | deliver (place : Nat) (p : Pursuit) (preview : Preview)
      (hplace : race.entries[place]? = some (.running p)) (hrest : p.rest = .done (.ok preview))
      (hlatest : race.refresher.generation = p.generation) :
      Step client race (.settle place)
        { race.put place (.ended p.plan p.generation (.ok preview)) with
          refresher := { race.refresher with token := none } }
  /-- The latest refresh has got none. -/
  | fail (place : Nat) (p : Pursuit) (e : CatalogError)
      (hplace : race.entries[place]? = some (.running p)) (hrest : p.rest = .done (.error e))
      (hlatest : race.refresher.generation = p.generation) :
      Step client race (.settle place)
        { race.put place (.ended p.plan p.generation (.error e)) with
          refresher := { race.refresher with token := none, lastUrl := none } }
  /-- A refresh that is not the latest one has got something. -/
  | late (place : Nat) (p : Pursuit) (result : Except CatalogError Preview)
      (hplace : race.entries[place]? = some (.running p)) (hrest : p.rest = .done result)
      (hlate : race.refresher.generation ≠ p.generation) :
      Step client race (.settle place)
        (race.put place (.ended p.plan p.generation (.error .superseded)))
  | invalidate : Step client race .invalidate { race with refresher := race.refresher.invalidate }

section Steps

variable {client : Client} {race after : Race} {event : RaceEvent}

theorem running?_eq_some_iff (race : Race) (place : Nat) (p : Pursuit) :
    race.running? place = some p ↔ race.entries[place]? = some (.running p) := by
  unfold running?
  split
  · next q hq => rw [hq, Option.some.injEq, Option.some.injEq, RaceEntry.running.injEq]
  · next hne => exact iff_of_false (Option.some_ne_none p).symm fun h => hne p h

/-- Beginning a refresh is a step. -/
theorem step_start (client : Client) (race : Race) (view : View) (a : Addressing) (force : Bool) :
    race.Step client (.begin view a force) (race.start client view a force) := by
  unfold start
  cases hplan : view.refreshPlan? a with
  | error e => exact .unwritten view a force e hplan
  | ok plan =>
    by_cases hlast : race.refresher.lastUrl = some plan.rows
    · cases force with
      | false =>
        have hskip : race.refresher.issue plan.rows false = none := by
          simp [Refresher.issue, Refresher.isCurrent, hlast]
        simp only [hskip]
        exact .skip view a plan hplan hlast
      | true => exact .issue view a true plan hplan (Or.inl rfl)
    · have hissue : race.refresher.issue plan.rows force =
          some ⟨some plan.rows, race.refresher.generation + 1,
            some (race.refresher.generation + 1)⟩ := by
        simp [Refresher.issue, Refresher.isCurrent, hlast]
      simp only [hissue]
      exact .issue view a force plan hplan (Or.inr hlast)

/-- Settling is a step of a refresh that has got something. -/
theorem step_settle (place : Nat) (p : Pursuit) (result : Except CatalogError Preview)
    (hplace : race.entries[place]? = some (.running p)) (hrest : p.rest = .done result) :
    race.Step client (.settle place)
      { refresher := (race.refresher.settle p.generation result).1
        entries := race.entries.set place
          (.ended p.plan p.generation (race.refresher.settle p.generation result).2) } := by
  unfold Refresher.settle
  by_cases hlatest : race.refresher.generation = p.generation
  · rw [if_neg (not_not.mpr hlatest)]
    cases result with
    | ok preview => exact .deliver place p preview hplace hrest hlatest
    | error e => exact .fail place p e hplace hrest hlatest
  · rw [if_pos hlatest]
    exact .late place p result hplace hrest hlatest

/-- A race goes on as its steps say. -/
theorem step?_eq_some_iff :
    race.step? client event = some after ↔ race.Step client event after := by
  constructor
  · intro h
    cases event with
    | begin view a force =>
      rw [← Option.some.inj h]
      exact step_start client race view a force
    | invalidate =>
      rw [← Option.some.inj h]
      exact .invalidate
    | reply place reply =>
      simp only [step?] at h
      split at h
      · next p hp =>
        split at h
        · next request next hrest =>
          rw [← Option.some.inj h]
          exact .reply place p reply request next ((running?_eq_some_iff race place p).mp hp) hrest
        · exact nomatch h
      · exact nomatch h
    | notice place =>
      simp only [step?] at h
      split at h
      · next p hp =>
        split at h
        · next htold =>
          rw [← Option.some.inj h]
          exact .notice place p ((running?_eq_some_iff race place p).mp hp) htold
        · exact nomatch h
      · exact nomatch h
    | settle place =>
      simp only [step?] at h
      split at h
      · next p hp =>
        split at h
        · next result hrest =>
          rw [← Option.some.inj h]
          exact step_settle place p result ((running?_eq_some_iff race place p).mp hp) hrest
        · exact nomatch h
      · exact nomatch h
  · intro h
    cases h with
    | unwritten view a force e hplan => simp only [step?, start, hplan, add]
    | skip view a plan hplan hlast =>
      simp [step?, start, hplan, Refresher.issue, Refresher.isCurrent, hlast, add]
    | issue view a force plan hplan hnew =>
      have hcurrent : (!force && race.refresher.isCurrent plan.rows) = false := by
        rcases hnew with rfl | hnew
        · rfl
        · simp [Refresher.isCurrent, hnew]
      simp [step?, start, hplan, Refresher.issue, hcurrent, issue]
    | reply place p reply request next hplace hrest =>
      simp only [step?, (running?_eq_some_iff race place p).mpr hplace, hrest, put]
    | notice place p hplace htold =>
      simp only [step?, (running?_eq_some_iff race place p).mpr hplace, htold, if_true, put]
    | deliver place p preview hplace hrest hlatest =>
      simp only [step?, (running?_eq_some_iff race place p).mpr hplace, hrest, Refresher.settle,
        hlatest, ne_eq, not_true_eq_false, if_false, put]
    | fail place p e hplace hrest hlatest =>
      simp only [step?, (running?_eq_some_iff race place p).mpr hplace, hrest, Refresher.settle,
        hlatest, ne_eq, not_true_eq_false, if_false, put]
    | late place p result hplace hrest hlate =>
      simp only [step?, (running?_eq_some_iff race place p).mpr hplace, hrest, Refresher.settle,
        ne_eq, hlate, not_false_eq_true, if_true, put]
    | invalidate => rfl

end Steps

section Entries

variable (client : Client) (race : Race) (plan : RefreshPlan) (place : Nat) (entry : RaceEntry)

theorem getElem?_put (old : RaceEntry) (h : race.entries[place]? = some old) (i : Nat) :
    (race.put place entry).entries[i]? = if place = i then some entry else race.entries[i]? := by
  have hlt : place < race.entries.length := (List.getElem?_eq_some_iff.mp h).1
  rw [put, List.getElem?_set, if_pos hlt]

/-- What is the same of the old and the new state of a refresh is the same of
    all refreshes. -/
theorem map_put {β : Type} (f : RaceEntry → β) (old : RaceEntry)
    (h : race.entries[place]? = some old) (hf : f entry = f old) :
    (race.put place entry).entries.map f = race.entries.map f := by
  refine List.ext_getElem? fun i => ?_
  rw [List.getElem?_map, List.getElem?_map, getElem?_put race place entry old h]
  by_cases hi : place = i
  · rw [if_pos hi, ← hi, h, Option.map_some, Option.map_some, hf]
  · rw [if_neg hi]

theorem getElem?_add (i : Nat) (e : RaceEntry) :
    (race.add entry).entries[i]? = some e ↔
      race.entries[i]? = some e ∨ i = race.entries.length ∧ entry = e := by
  rw [add, List.getElem?_append]
  by_cases hi : i < race.entries.length
  · rw [if_pos hi]
    exact ⟨Or.inl, fun h => h.elim id fun h => absurd h.1 (Nat.ne_of_lt hi)⟩
  · have hnone : race.entries[i]? = none := List.getElem?_eq_none (Nat.le_of_not_lt hi)
    rw [if_neg hi, hnone, List.getElem?_singleton]
    by_cases heq : i = race.entries.length
    · simp [heq]
    · simp [heq, show i - race.entries.length ≠ 0 by omega]

theorem getElem?_issue (i : Nat) (e : RaceEntry) :
    (race.issue client plan).entries[i]? = some e ↔
      (∃ old, race.entries[i]? = some old ∧ old.cancel race.refresher.token = e) ∨
      i = race.entries.length ∧
        .running ⟨plan, race.refresher.generation + 1, false, client.preview plan⟩ = e := by
  have h := getElem?_add ⟨race.refresher, race.entries.map (RaceEntry.cancel race.refresher.token)⟩
    (.running ⟨plan, race.refresher.generation + 1, false, client.preview plan⟩) i e
  rw [List.getElem?_map, Option.map_eq_some_iff, List.length_map] at h
  exact h

end Entries

/-- The number under which the refresh at a place was issued, if it was. -/
def generationAt? (race : Race) (place : Nat) : Option Nat :=
  race.entries[place]?.bind RaceEntry.generation?

/-- Another refresh was issued after the one at a place. -/
def IsOvertaken (race : Race) (place : Nat) : Prop :=
  ∃ later, place < later ∧ (race.generationAt? later).isSome

/-- The refresh at a place is the last one that was issued. -/
def IsLatest (race : Race) (place : Nat) : Prop :=
  (race.generationAt? place).isSome ∧ ¬ race.IsOvertaken place

/-- What holds between the refresher and the refreshes. -/
structure Coherent (race : Race) : Prop where
  /-- Generations count the refreshes that were issued. -/
  numbered : race.entries.filterMap RaceEntry.generation? = List.range' 1 race.refresher.generation
  /-- Those that are not the latest one were told to stop. -/
  told : ∀ (place : Nat) (p : Pursuit), race.entries[place]? = some (.running p) →
    (p.cancelled = true ↔ p.generation < race.refresher.generation)
  /-- The latest one is the one that would be told. -/
  token : ∀ (place : Nat) (p : Pursuit), race.entries[place]? = some (.running p) →
    p.generation = race.refresher.generation → race.refresher.token = some p.generation

section Generations

variable {race : Race} {i j g g' : Nat}

theorem generationAt?_eq_some_iff (race : Race) (i g : Nat) :
    race.generationAt? i = some g ↔ ∃ e, race.entries[i]? = some e ∧ e.generation? = some g :=
  Option.bind_eq_some_iff

namespace Coherent

variable (hrace : race.Coherent)

include hrace

theorem generation_le (hi : race.generationAt? i = some g) : g ≤ race.refresher.generation := by
  rcases (generationAt?_eq_some_iff race i g).mp hi with ⟨e, he, hg⟩
  have hmem : g ∈ race.entries.filterMap RaceEntry.generation? :=
    List.mem_filterMap.mpr ⟨e, List.mem_of_getElem? he, hg⟩
  rw [hrace.numbered, List.mem_range'_1] at hmem
  omega

/-- Refreshes are numbered in the order in which they began. -/
theorem generation_lt (hi : race.generationAt? i = some g) (hj : race.generationAt? j = some g')
    (hij : i < j) : g < g' := by
  have hpair : (race.entries.filterMap RaceEntry.generation?).Pairwise (· < ·) := by
    rw [hrace.numbered]
    exact List.pairwise_lt_range' 1
  rcases (generationAt?_eq_some_iff race i g).mp hi with ⟨e, he, hg⟩
  rcases (generationAt?_eq_some_iff race j g').mp hj with ⟨e', he', hg'⟩
  rcases List.getElem?_eq_some_iff.mp he with ⟨hilt, rfl⟩
  rcases List.getElem?_eq_some_iff.mp he' with ⟨hjlt, rfl⟩
  rw [List.pairwise_filterMap, List.pairwise_iff_getElem] at hpair
  exact hpair i j hilt hjlt hij g hg g' hg'

theorem place_unique (hi : race.generationAt? i = some g) (hj : race.generationAt? j = some g) :
    i = j := by
  rcases Nat.lt_trichotomy i j with hlt | heq | hlt
  · exact absurd (hrace.generation_lt hi hj hlt) (Nat.lt_irrefl g)
  · exact heq
  · exact absurd (hrace.generation_lt hj hi hlt) (Nat.lt_irrefl g)

/-- Comparing generations tells whether a refresh has been overtaken. -/
theorem isOvertaken_iff (hi : race.generationAt? i = some g) :
    race.IsOvertaken i ↔ g < race.refresher.generation := by
  constructor
  · rintro ⟨later, hlt, hsome⟩
    rcases Option.isSome_iff_exists.mp hsome with ⟨g', hg'⟩
    have hlater := hrace.generation_lt hi hg' hlt
    have hle := hrace.generation_le hg'
    omega
  · intro hlt
    -- The highest number belongs to some refresh, which can only stand behind.
    have hmem : race.refresher.generation ∈ race.entries.filterMap RaceEntry.generation? := by
      rw [hrace.numbered, List.mem_range'_1]
      omega
    rcases List.mem_filterMap.mp hmem with ⟨e, he, hg⟩
    rcases List.mem_iff_getElem?.mp he with ⟨later, hlater⟩
    have hnumber : race.generationAt? later = some race.refresher.generation :=
      (generationAt?_eq_some_iff race later _).mpr ⟨e, hlater, hg⟩
    refine ⟨later, ?_, Option.isSome_iff_exists.mpr ⟨_, hnumber⟩⟩
    rcases Nat.lt_trichotomy i later with hil | heq | hil
    · exact hil
    · rw [heq, hnumber, Option.some.injEq] at hi
      omega
    · have hback := hrace.generation_lt hnumber hi hil
      omega

/-- The latest refresh has the highest number. -/
theorem isLatest_iff : race.IsLatest i ↔ race.generationAt? i = some race.refresher.generation := by
  constructor
  · rintro ⟨hsome, hnot⟩
    rcases Option.isSome_iff_exists.mp hsome with ⟨g, hg⟩
    have hle := hrace.generation_le hg
    rw [hrace.isOvertaken_iff hg] at hnot
    rw [hg, show g = race.refresher.generation by omega]
  · intro hi
    refine ⟨Option.isSome_iff_exists.mpr ⟨_, hi⟩, ?_⟩
    rw [hrace.isOvertaken_iff hi]
    exact Nat.lt_irrefl _

/-- A refresh that is over as it begins has no number. -/
theorem add (entry : RaceEntry) (hentry : entry.generation? = none) :
    (race.add entry).Coherent := by
  -- A refresh under way has a number, so it is none that was added.
  have hold : ∀ (place : Nat) (p : Pursuit),
      (race.add entry).entries[place]? = some (.running p) →
      race.entries[place]? = some (.running p) := by
    intro place p hp
    rcases (getElem?_add race entry place _).mp hp with hp | ⟨_, rfl⟩
    · exact hp
    · exact absurd hentry (Option.some_ne_none _)
  refine ⟨?_, fun place p hp => hrace.told place p (hold place p hp),
    fun place p hp => hrace.token place p (hold place p hp)⟩
  have happ : (race.add entry).entries.filterMap RaceEntry.generation? =
      race.entries.filterMap RaceEntry.generation? ++ [] := by
    rw [Race.add, List.filterMap_append, List.filterMap_cons_none hentry, List.filterMap_nil]
  rw [happ, List.append_nil]
  exact hrace.numbered

/-- The refresh that is issued is the latest one, and all others have been told
    to stop. -/
theorem issue (client : Client) (plan : RefreshPlan) : (race.issue client plan).Coherent := by
  have hlower : ∀ (place : Nat) (p : Pursuit), race.entries[place]? = some (.running p) →
      p.generation ≤ race.refresher.generation := fun place p hp =>
    hrace.generation_le ((generationAt?_eq_some_iff race place _).mpr ⟨_, hp, rfl⟩)
  refine ⟨?_, fun place q hq => ?_, fun place q _ hlatest => congrArg some hlatest.symm⟩
  · have hkept : (race.entries.map (RaceEntry.cancel race.refresher.token)).filterMap
        RaceEntry.generation? = race.entries.filterMap RaceEntry.generation? := by
      rw [List.filterMap_map]
      exact congrArg (race.entries.filterMap ·)
        (funext (RaceEntry.generation?_cancel race.refresher.token))
    rw [Race.issue, List.filterMap_append, hkept, hrace.numbered]
    -- The new number is the next one.
    have hnext : List.range' 1 (race.refresher.generation + 1) =
        List.range' 1 race.refresher.generation ++ [race.refresher.generation + 1] := by
      rw [List.range'_1_concat, Nat.add_comm 1]
    exact hnext.symm
  · show q.cancelled = true ↔ q.generation < race.refresher.generation + 1
    rcases (getElem?_issue client race plan place _).mp hq with ⟨old, hold, hcancel⟩ | ⟨_, hnew⟩
    · cases old with
      | running p =>
        rw [RaceEntry.cancel, RaceEntry.running.injEq] at hcancel
        subst hcancel
        have hle := hlower place p hold
        -- It was told before, or it was the latest one and is told now.
        have htold : (p.cancelled || decide (race.refresher.token = some p.generation)) = true := by
          rw [Bool.or_eq_true, decide_eq_true_eq]
          rcases Nat.lt_or_eq_of_le hle with hlt | heq
          · exact Or.inl ((hrace.told place p hold).mpr hlt)
          · exact Or.inr (hrace.token place p hold heq)
        exact iff_of_true htold (Nat.lt_succ_of_le hle)
      | ended | skipped | failed => exact nomatch hcancel
    · rw [RaceEntry.running.injEq] at hnew
      subst hnew
      exact iff_of_false Bool.false_ne_true (Nat.lt_irrefl _)

section Put

variable {place : Nat} {p : Pursuit} {entry : RaceEntry}
  (hplace : race.entries[place]? = some (.running p))
  (hentry : entry.generation? = some p.generation)

include hplace hentry

theorem numbered_put : (race.put place entry).entries.filterMap RaceEntry.generation? =
    List.range' 1 race.refresher.generation := by
  have hmap := map_put race place entry RaceEntry.generation? (.running p) hplace hentry
  have hfilter : ∀ es : List RaceEntry,
      es.filterMap RaceEntry.generation? = (es.map RaceEntry.generation?).filterMap id := by
    intro es
    rw [List.filterMap_map, Function.id_comp]
  rw [← hrace.numbered, hfilter, hmap, ← hfilter]

/-- A refresh goes on or gives up. -/
theorem put (hsame : ∀ q, entry = .running q →
    q.cancelled = p.cancelled ∧ q.generation = p.generation) :
    (race.put place entry).Coherent := by
  -- What is under way afterwards was under way before, with the same number.
  have hold : ∀ (i : Nat) (q : Pursuit), (race.put place entry).entries[i]? = some (.running q) →
      ∃ r, race.entries[i]? = some (.running r) ∧ q.cancelled = r.cancelled ∧
        q.generation = r.generation := by
    intro i q hq
    rw [getElem?_put race place entry _ hplace] at hq
    by_cases hi : place = i
    · rw [if_pos hi, Option.some.injEq] at hq
      exact ⟨p, hi ▸ hplace, hsame q hq⟩
    · rw [if_neg hi] at hq
      exact ⟨q, hq, rfl, rfl⟩
  refine ⟨hrace.numbered_put hplace hentry, fun i q hq => ?_, fun i q hq hlatest => ?_⟩
  · rcases hold i q hq with ⟨r, hr, hcancelled, hgeneration⟩
    rw [hcancelled, hgeneration]
    exact hrace.told i r hr
  · rcases hold i q hq with ⟨r, hr, _, hgeneration⟩
    rw [hgeneration] at hlatest ⊢
    exact hrace.token i r hr hlatest

/-- The latest refresh ends and takes its token away. -/
theorem end_latest (hended : ∀ q, entry ≠ .running q)
    (hlatest : race.refresher.generation = p.generation) (lastUrl : Option String) :
    ({ race.put place entry with
        refresher := { race.refresher with token := none, lastUrl } } : Race).Coherent := by
  have hput := hrace.put hplace hentry fun q hq => absurd hq (hended q)
  refine ⟨hput.numbered, hput.told, fun i q hq hq' => ?_⟩
  -- Only one refresh was the latest one, and that one has ended.
  have hi : (race.put place entry).generationAt? i = some race.refresher.generation :=
    (generationAt?_eq_some_iff _ i _).mpr ⟨_, hq, congrArg some hq'⟩
  have hp : (race.put place entry).generationAt? place = some race.refresher.generation := by
    refine (generationAt?_eq_some_iff _ place _).mpr ⟨entry, ?_, hlatest ▸ hentry⟩
    rw [getElem?_put race place entry _ hplace, if_pos rfl]
  have hsame := hput.place_unique hi hp
  subst hsame
  have hqentry := getElem?_put race i entry _ hplace i
  rw [if_pos rfl] at hqentry
  exact absurd (Option.some.inj (hqentry.symm.trans hq)) (hended q)

end Put

end Coherent

/-- Every step keeps what holds between the refresher and the refreshes. -/
theorem coherent_step {client : Client} {race after : Race} {event : RaceEvent}
    (hrace : race.Coherent) (h : race.Step client event after) : after.Coherent := by
  cases h with
  | unwritten view a force e hplan => exact hrace.add _ rfl
  | skip view a plan hplan hlast => exact hrace.add _ rfl
  | issue view a force plan hplan hnew => exact hrace.issue client plan
  | reply place p reply request next hplace hrest =>
    refine hrace.put hplace rfl fun q hq => ?_
    rw [RaceEntry.running.injEq] at hq
    subst hq
    exact ⟨rfl, rfl⟩
  | notice place p hplace htold => exact hrace.put hplace rfl fun q hq => nomatch hq
  | deliver place p preview hplace hrest hlatest =>
    refine hrace.end_latest hplace rfl ?_ hlatest race.refresher.lastUrl
    exact fun q hq => nomatch hq
  | fail place p e hplace hrest hlatest =>
    refine hrace.end_latest hplace rfl ?_ hlatest none
    exact fun q hq => nomatch hq
  | late place p result hplace hrest hlate => exact hrace.put hplace rfl fun q hq => nomatch hq
  | invalidate => exact ⟨hrace.numbered, hrace.told, hrace.token⟩

end Generations

theorem run?_concat (client : Client) (race : Race) (events : List RaceEvent) (event : RaceEvent) :
    race.run? client (events ++ [event]) =
      (race.run? client events).bind fun middle => middle.step? client event := by
  rw [run?, List.foldlM_append]
  refine bind_congr fun middle => ?_
  rw [List.foldlM_cons]
  exact bind_pure _

theorem run?_cons_eq_some_iff (client : Client) (race final : Race) (event : RaceEvent)
    (events : List RaceEvent) : race.run? client (event :: events) = some final ↔
      ∃ after, race.Step client event after ∧ after.run? client events = some final := by
  have hbind : race.run? client (event :: events) =
      (race.step? client event).bind fun after => after.run? client events := List.foldlM_cons
  rw [hbind, Option.bind_eq_some_iff]
  exact exists_congr fun after => and_congr_left fun _ => step?_eq_some_iff

/-- What holds at the beginning, and is kept by every step together with the
    events so far, holds after every run. -/
theorem run?_induction {client : Client} {P : List RaceEvent → Race → Prop} (hnil : P [] {})
    (hstep : ∀ events race event after, P events race → race.Step client event after →
      P (events ++ [event]) after)
    (events : List RaceEvent) (race : Race) (h : run? client {} events = some race) :
    P events race := by
  induction events using List.reverseRecOn generalizing race with
  | nil =>
    rw [← Option.some.inj h]
    exact hnil
  | append_singleton events event ih =>
    rw [run?_concat] at h
    rcases Option.bind_eq_some_iff.mp h with ⟨middle, hmiddle, hlast⟩
    exact hstep events middle event race (ih middle hmiddle) (step?_eq_some_iff.mp hlast)

theorem coherent_empty : ({} : Race).Coherent where
  numbered := rfl
  told := fun _ _ h => absurd h (Option.some_ne_none _).symm
  token := fun _ _ h => absurd h (Option.some_ne_none _).symm

theorem coherent_run (client : Client) (events : List RaceEvent) (race : Race)
    (h : run? client {} events = some race) : race.Coherent := by
  refine run?_induction (P := fun _ race => race.Coherent) coherent_empty ?_ events race h
  exact fun _ _ _ _ hrace hstep => coherent_step hrace hstep

end Race

end TagCatalog
