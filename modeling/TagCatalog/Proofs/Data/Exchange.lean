import TagCatalog.Data.Exchange

/-!
# Conversations

What is asked on the way through an exchange, each question with its answer.

An exchange is a tree of questions, and what happens in one run is a path
through that tree. `Exchange.converse` follows a path to its end in one go,
against a party that always answers. That is no help where answers come one at
a time, with other events in between. `Exchange.Talk` is a path that may stop
anywhere: it leads from an exchange to what is left of it.

A path grows at its end, by `Talk.snoc`, while it is taken apart at its start.
`talk_bind` takes a finished one apart where one computation hands over to the
next, which is how a statement about each part becomes one about the whole, and
`Talk.bind` puts it together again.

The answers decide where a path goes, so of the paths that begin with the same
answers only one is finished, which is `talk_unique_of_answers`. `talk_unique`
says so of two finished paths that can be extended to the same one: where the
first computation of a longer one ended cannot be seen in two ways. What a given
path ends in can be computed, so whether it is one of an exchange can be decided.

## Main definitions

* `Exchange.Talk`: Questions with their answers between two exchanges.
* `Exchange.ending?`: What a path ends in, if it is one.
* `Exchange.asked`: What is asked in a run.

## Theorems

* `Talk.snoc`: One more answer.
* `talk_done`: Behind the end nothing is asked.
* `talk_bind`, `Talk.bind`: A finished path through two computations in a row.
* `talk_map`: A finished path of which only the end is changed.
* `talk_unique_of_answers`, `talk_unique`, `talk_result_unique`: The answers decide
  where a path ends, and in what.
* `talk_iff_ending?`: Finished paths are those that end in something.
* `run_of_answer`: A run goes on with the answer to a question.
-/

namespace TagCatalog

namespace Exchange

variable {Q R α β : Type}

/-- Questions with their answers that lead from one exchange to what is left
    of it. -/
inductive Talk : Exchange Q (fun _ => R) α → List (Q × R) → Exchange Q (fun _ => R) α → Prop
  | nil (e : Exchange Q (fun _ => R) α) : Talk e [] e
  | cons (q : Q) (r : R) (next : R → Exchange Q (fun _ => R) α) (talk : List (Q × R))
      (rest : Exchange Q (fun _ => R) α) (h : Talk (next r) talk rest) :
      Talk (ask q next) ((q, r) :: talk) rest

/-- A path goes on with the answer to the question where it stopped. -/
theorem Talk.snoc {e : Exchange Q (fun _ => R) α} {talk : List (Q × R)} {q : Q}
    {next : R → Exchange Q (fun _ => R) α} (h : Talk e talk (ask q next)) (r : R) :
    Talk e (talk ++ [(q, r)]) (next r) := by
  generalize hrest : (ask q next : Exchange Q (fun _ => R) α) = rest at h
  induction h with
  | nil e =>
    subst hrest
    exact .cons q r next [] (next r) (.nil (next r))
  | cons q' r' next' talk rest _ ih => exact .cons q' r' next' _ (next r) (ih hrest)

theorem talk_done {a b : α} {talk : List (Q × R)} (h : Talk (done a) talk (done b)) :
    talk = [] ∧ a = b := by
  cases h with
  | nil => exact ⟨rfl, rfl⟩

/-- A finished path through one computation after another is one through the
    first and then one through the second. -/
theorem talk_bind {e : Exchange Q (fun _ => R) α} {f : α → Exchange Q (fun _ => R) β}
    {talk : List (Q × R)} {b : β} (h : Talk (e.bind f) talk (done b)) :
    ∃ a first second, talk = first ++ second ∧ Talk e first (done a) ∧
      Talk (f a) second (done b) := by
  induction e generalizing talk with
  | done a => exact ⟨a, [], talk, rfl, .nil (done a), h⟩
  | ask q next ih =>
    cases h with
    | cons _ r _ talk _ h =>
      rcases ih r h with ⟨a, first, second, rfl, hfirst, hsecond⟩
      exact ⟨a, (q, r) :: first, second, rfl, .cons q r next first (done a) hfirst, hsecond⟩

/-- What is made of the end of a computation takes no further question. -/
theorem talk_map {e : Exchange Q (fun _ => R) α} {f : α → β} {talk : List (Q × R)} {b : β}
    (h : Talk (e.bind fun a => done (f a)) talk (done b)) :
    ∃ a, Talk e talk (done a) ∧ b = f a := by
  rcases talk_bind h with ⟨a, first, second, rfl, hfirst, hsecond⟩
  rcases talk_done hsecond with ⟨rfl, hb⟩
  rw [List.append_nil]
  exact ⟨a, hfirst, hb.symm⟩

theorem Talk.bind {e : Exchange Q (fun _ => R) α} {f : α → Exchange Q (fun _ => R) β} {a : α}
    {first second : List (Q × R)} {rest : Exchange Q (fun _ => R) β} (h : Talk e first (done a))
    (hrest : Talk (f a) second rest) : Talk (e.bind f) (first ++ second) rest := by
  generalize hdone : (done a : Exchange Q (fun _ => R) α) = last at h
  induction h with
  | nil e =>
    subst hdone
    exact hrest
  | cons q r next talk last _ ih => exact .cons q r _ _ rest (ih hdone)

/-- Two finished paths with answers of which none go on where the other ones stop
    are the same, for the answers decide what is asked. -/
theorem talk_unique_of_answers {e : Exchange Q (fun _ => R) α} {a b : α}
    {first first' : List (Q × R)} {rest rest' : List R} (h : Talk e first (done a))
    (h' : Talk e first' (done b))
    (heq : first.map Prod.snd ++ rest = first'.map Prod.snd ++ rest') : first = first' ∧ a = b := by
  induction e generalizing first first' with
  | done c =>
    rcases talk_done h with ⟨rfl, rfl⟩
    rcases talk_done h' with ⟨rfl, rfl⟩
    exact ⟨rfl, rfl⟩
  | ask q next ih =>
    cases h with
    | cons _ r _ talk _ h =>
      cases h' with
      | cons _ r' _ talk' _ h' =>
        rw [List.map_cons, List.map_cons, List.cons_append, List.cons_append,
          List.cons.injEq] at heq
        rcases heq with ⟨rfl, heq⟩
        rcases ih r h h' heq with ⟨rfl, rfl⟩
        exact ⟨rfl, rfl⟩

/-- Two finished paths of which none goes on where the other one stops are the
    same. -/
theorem talk_unique {e : Exchange Q (fun _ => R) α} {a b : α}
    {first first' rest rest' : List (Q × R)} (h : Talk e first (done a))
    (h' : Talk e first' (done b)) (heq : first ++ rest = first' ++ rest') :
    first = first' ∧ a = b := by
  have hanswers := congrArg (List.map Prod.snd) heq
  rw [List.map_append, List.map_append] at hanswers
  exact talk_unique_of_answers h h' hanswers

theorem talk_result_unique {e : Exchange Q (fun _ => R) α} {a b : α} {talk : List (Q × R)}
    (h : Talk e talk (done a)) (h' : Talk e talk (done b)) : a = b :=
  (talk_unique h h' (rfl : talk ++ [] = talk ++ [])).2

/-- What an exchange ends in if it asks these questions and gets these answers. -/
def ending? [DecidableEq Q] : Exchange Q (fun _ => R) α → List (Q × R) → Option α
  | done a, [] => some a
  | ask q next, (asked, r) :: talk => if q = asked then (next r).ending? talk else none
  | _, _ => none

theorem talk_iff_ending? [DecidableEq Q] {e : Exchange Q (fun _ => R) α} {talk : List (Q × R)}
    {a : α} : Talk e talk (done a) ↔ e.ending? talk = some a := by
  constructor
  · intro h
    generalize hdone : (done a : Exchange Q (fun _ => R) α) = last at h
    induction h with
    | nil e =>
      subst hdone
      rfl
    | cons q r next talk last _ ih =>
      rw [ending?, if_pos rfl]
      exact ih hdone
  · intro h
    induction e generalizing talk with
    | done b =>
      cases talk with
      | nil => exact Option.some.inj h ▸ .nil _
      | cons x talk => exact nomatch h
    | ask q next ih =>
      cases talk with
      | nil => exact nomatch h
      | cons x talk =>
        rw [ending?] at h
        split at h
        · next hq => exact hq ▸ .cons _ x.2 next talk _ (ih x.2 h)
        · exact nomatch h

instance [DecidableEq Q] [DecidableEq α] (e : Exchange Q (fun _ => R) α) (talk : List (Q × R))
    (a : α) : Decidable (Talk e talk (done a)) :=
  decidable_of_iff _ talk_iff_ending?.symm

/-- What is asked in a run against a party with a state. -/
def asked {A : Q → Type} {σ : Type} (answer : (q : Q) → σ → A q × σ) : Exchange Q A α → σ → List Q
  | done _, _ => []
  | ask q next, s => q :: (next (answer q s).1).asked answer (answer q s).2

/-- A run goes on with the answer to a question. -/
theorem run_of_answer {A : Q → Type} {σ : Type} {answer : (q : Q) → σ → A q × σ} {q : Q} {s t : σ}
    {r : A q} (hanswer : answer q s = (r, t)) {next : A q → Exchange Q A α} {e : Exchange Q A α}
    (hnext : next r = e) :
    (ask q next).asked answer s = q :: e.asked answer t ∧
      (ask q next).converse answer s = e.converse answer t := by
  rw [asked, converse, hanswer, ← hnext]
  exact ⟨rfl, rfl⟩

end Exchange

end TagCatalog
