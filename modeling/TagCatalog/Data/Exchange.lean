/-!
# Exchanges

A computation that asks questions and goes on with the answers. It is data, so
one computation can be run against any party that answers, and what it asks
can be compared with what it makes of the answers.

## Main definitions

* `Exchange`: A computation over questions and their answers.
* `Exchange.bind`: One computation after another.
* `Exchange.translate`: Questions asked by means of other questions.
* `Exchange.converse`: A run against a party with a state.
-/

namespace TagCatalog

/-- A computation that asks questions of `Q`, where `A q` are the answers to
    `q`, and ends in a value. -/
inductive Exchange (Q : Type) (A : Q → Type) (α : Type) where
  | done (a : α)
  | ask (q : Q) (next : A q → Exchange Q A α)

namespace Exchange

variable {Q : Type} {A : Q → Type} {α β : Type}

/-- One computation after another. -/
def bind : Exchange Q A α → (α → Exchange Q A β) → Exchange Q A β
  | done a, f => f a
  | ask q next, f => ask q fun r => (next r).bind f

instance : Monad (Exchange Q A) where
  pure := done
  bind := bind

/-- The question `q` and nothing else. -/
def question (q : Q) : Exchange Q A (A q) := ask q done

/-- Ask the questions by means of other questions. -/
def translate {Q' : Type} {A' : Q' → Type} (f : (q : Q) → Exchange Q' A' (A q)) :
    Exchange Q A α → Exchange Q' A' α
  | done a => done a
  | ask q next => (f q).bind fun r => (next r).translate f

/-- Run against a party whose state answers each question. -/
def converse {σ : Type} (answer : (q : Q) → σ → A q × σ) : Exchange Q A α → σ → α × σ
  | done a, s => (a, s)
  | ask q next, s =>
    let (r, s) := answer q s
    (next r).converse answer s

end Exchange

end TagCatalog
