import TagCatalog.Catalog.Activity
import TagCatalog.Proofs.Data.Exchange

/-!
# Conversations of Activities

Which conversations an activity can have with the catalog, and with what
report they end.

An activity is put together from requests, results, notices and other
activities, and each way of putting it together has a statement that says what
a finished conversation of the whole is. The statements go both ways. From left
to right they take a conversation apart that has happened; from right to left
they show what happens when the catalog replies in a given way.

The statement about one activity after another is the only one with two cases.
A failure of the first activity ends the conversation, and what was told until
then stays told.

## Theorems

* `talk_quiet_iff`: Requests of which nothing is told.
* `talk_known_iff`: A result that takes no request.
* `talk_telling_iff`: A notice before an activity.
* `talk_andThen_iff`: One activity after another.
* `talk_of_andThen`: The part of a conversation that belongs to the second
  activity.
* `talk_quiet_andThen_iff`, `talk_of_quiet_andThen`: Requests and an activity after
  them.
-/

namespace TagCatalog

open Exchange

namespace Activity

variable {α β : Type} {talk : List (Http.Request × Http.Reply)} {notices : List Notice}

theorem talk_quiet_iff (call : Http.Call (Except CatalogError α)) (result : Except CatalogError α) :
    Talk (quiet call) talk (.done ⟨notices, result⟩) ↔
      notices = [] ∧ Talk call talk (.done result) := by
  constructor
  · intro h
    rcases talk_bind h with ⟨found, first, second, rfl, hfirst, hsecond⟩
    rcases talk_done hsecond with ⟨rfl, hreport⟩
    rcases (Report.mk.injEq _ _ _ _).mp hreport with ⟨hnotices, rfl⟩
    rw [List.append_nil]
    exact ⟨hnotices.symm, hfirst⟩
  · rintro ⟨rfl, h⟩
    rw [← List.append_nil talk]
    exact h.bind (.nil _)

theorem talk_known_iff (known result : Except CatalogError α) :
    Talk (Activity.known known) talk (.done ⟨notices, result⟩) ↔
      talk = [] ∧ notices = [] ∧ result = known := by
  constructor
  · intro h
    rcases talk_done h with ⟨htalk, hreport⟩
    rcases (Report.mk.injEq _ _ _ _).mp hreport with ⟨hnotices, hresult⟩
    exact ⟨htalk, hnotices.symm, hresult.symm⟩
  · rintro ⟨rfl, rfl, rfl⟩
    exact .nil _

theorem talk_telling_iff (notice : Notice) (a : Activity α) (result : Except CatalogError α) :
    Talk (telling notice a) talk (.done ⟨notices, result⟩) ↔
      ∃ told, notices = notice :: told ∧ Talk a talk (.done ⟨told, result⟩) := by
  constructor
  · intro h
    rcases talk_bind h with ⟨⟨told, found⟩, first, second, rfl, hfirst, hsecond⟩
    rcases talk_done hsecond with ⟨rfl, hreport⟩
    rcases (Report.mk.injEq _ _ _ _).mp hreport with ⟨hnotices, rfl⟩
    rw [List.append_nil]
    exact ⟨told, hnotices.symm, hfirst⟩
  · rintro ⟨told, rfl, h⟩
    rw [← List.append_nil talk]
    exact h.bind (.nil _)

theorem talk_andThen_iff (a : Activity α) (next : α → Activity β) (result : Except CatalogError β) :
    Talk (a.andThen next) talk (.done ⟨notices, result⟩) ↔
      (∃ e, result = .error e ∧ Talk a talk (.done ⟨notices, .error e⟩)) ∨
      ∃ value first second told told', talk = first ++ second ∧ notices = told ++ told' ∧
        Talk a first (.done ⟨told, .ok value⟩) ∧
          Talk (next value) second (.done ⟨told', result⟩) := by
  constructor
  · intro h
    rcases talk_bind h with ⟨⟨told, found⟩, first, second, rfl, hfirst, hsecond⟩
    cases found with
    | error e =>
      rcases talk_done hsecond with ⟨rfl, hreport⟩
      rcases (Report.mk.injEq _ _ _ _).mp hreport with ⟨rfl, hresult⟩
      rw [List.append_nil]
      exact Or.inl ⟨e, hresult.symm, hfirst⟩
    | ok value =>
      rcases talk_bind hsecond with ⟨⟨told', _⟩, middle, last, rfl, hmiddle, hlast⟩
      rcases talk_done hlast with ⟨rfl, hreport⟩
      rcases (Report.mk.injEq _ _ _ _).mp hreport with ⟨hnotices, rfl⟩
      rw [List.append_nil]
      exact Or.inr ⟨value, first, middle, told, told', rfl, hnotices.symm, hfirst, hmiddle⟩
  · rintro (⟨e, rfl, h⟩ | ⟨value, first, second, told, told', rfl, rfl, hfirst, hsecond⟩)
    · rw [← List.append_nil talk]
      exact h.bind (.nil _)
    · refine hfirst.bind ?_
      rw [← List.append_nil second]
      exact hsecond.bind (.nil _)

/-- What is left of a conversation behind the end of the first activity is one of
    the second. -/
theorem talk_of_andThen {a : Activity α} {next : α → Activity β} {value : α} {told : List Notice}
    {first rest : List (Http.Request × Http.Reply)} {result : Except CatalogError β}
    (hfirst : Talk a first (.done ⟨told, .ok value⟩))
    (h : Talk (a.andThen next) (first ++ rest) (.done ⟨notices, result⟩)) :
    ∃ told', Talk (next value) rest (.done ⟨told', result⟩) := by
  rcases (talk_andThen_iff a next result).mp h with
    ⟨e, _, hfailed⟩ | ⟨other, begun, left, told₁, told', hsplit, _, hbegun, hleft⟩
  · -- The same replies cannot lead to a failure as well.
    have hsame := (talk_unique hfirst hfailed (List.append_nil (first ++ rest)).symm).2
    exact nomatch congrArg Report.result hsame
  · rcases talk_unique hfirst hbegun hsplit with ⟨rfl, hsame⟩
    rw [Report.mk.injEq, Except.ok.injEq] at hsame
    rw [List.append_cancel_left hsplit, hsame.2]
    exact ⟨told', hleft⟩

/-- Two activities of which the first one asks without telling. -/
theorem talk_quiet_andThen_iff (call : Http.Call (Except CatalogError α)) (next : α → Activity β)
    (b : β) :
    Talk ((quiet call).andThen next) talk (.done ⟨notices, .ok b⟩) ↔
      ∃ value first second, talk = first ++ second ∧ Talk call first (.done (.ok value)) ∧
        Talk (next value) second (.done ⟨notices, .ok b⟩) := by
  rw [talk_andThen_iff]
  constructor
  · rintro (⟨e, he, _⟩ | ⟨value, first, second, told, told', htalk, rfl, hfirst, hsecond⟩)
    · exact nomatch he
    · rcases (talk_quiet_iff call _).mp hfirst with ⟨rfl, hcall⟩
      exact ⟨value, first, second, htalk, hcall, hsecond⟩
  · rintro ⟨value, first, second, htalk, hfirst, hsecond⟩
    exact Or.inr ⟨value, first, second, [], notices, htalk, rfl,
      (talk_quiet_iff call _).mpr ⟨rfl, hfirst⟩, hsecond⟩

/-- Requests behind which nothing is asked, whether they succeed or not. -/
theorem talk_of_quiet_andThen {call : Http.Call (Except CatalogError α)} {next : α → Activity β}
    {result : Except CatalogError β} (hnext : ∀ value, ∃ report, next value = .done report)
    (h : Talk ((quiet call).andThen next) talk (.done ⟨notices, result⟩)) :
    ∃ found, Talk call talk (.done found) := by
  rcases (talk_andThen_iff _ next result).mp h with
    ⟨e, _, hfailed⟩ | ⟨value, first, second, told, told', rfl, _, hfirst, hsecond⟩
  · exact ⟨_, ((talk_quiet_iff call _).mp hfailed).2⟩
  · rcases hnext value with ⟨report, hreport⟩
    rw [hreport] at hsecond
    rw [(talk_done hsecond).1, List.append_nil]
    exact ⟨_, ((talk_quiet_iff call _).mp hfirst).2⟩

end Activity

end TagCatalog
