import LocalTable.Event
import LocalTable.Hierarchy

/-!
# Questions to a hierarchy

Whatever depends on the classes of a program is a query: a computation that may
ask the hierarchy for the definition of a class and go on with the answer, note
an event, or fail.  To need a class that no tier defines is a failure.

A query is a value of its own, apart from the way in which classes are looked
up.  `Query.eval` gives the answer by searching the tiers for every question.
-/

namespace LocalTable

/-- A computation over a class hierarchy.  The answer to a question comes with
the fact that it is what the hierarchy holds. -/
inductive Query (hierarchy : Hierarchy) (α : Type) : Type where
  | done (value : α)
  | fail (error : Error)
  | note (event : Event) (rest : Query hierarchy α)
  | ask (name : BinaryName)
      (rest : (answer : Option ClassData) → hierarchy.find? name = answer →
        Query hierarchy α)

namespace Query

variable {hierarchy : Hierarchy} {α β : Type}

/-- Go on with the result of a query. -/
def bind : Query hierarchy α → (α → Query hierarchy β) → Query hierarchy β
  | .done value, next => next value
  | .fail error, _ => .fail error
  | .note event rest, next => .note event (rest.bind next)
  | .ask name rest, next => .ask name fun answer sound => (rest answer sound).bind next

instance : Monad (Query hierarchy) where
  pure := .done
  bind := bind

/-- Note an event. -/
def tell (event : Event) : Query hierarchy Unit :=
  .note event (.done ())

/-- Go on with the definition of a class, or fail if there is none. -/
def demand (name : BinaryName)
    (next : (data : ClassData) → hierarchy.find? name = some data → Query hierarchy α) :
    Query hierarchy α :=
  .ask name fun
    | some data, found => next data found
    | none, _ => .fail (.unresolvedClass name)

/-- The definition of a class. -/
def resolve (name : BinaryName) : Query hierarchy ClassData :=
  demand name fun data _ => .done data

/-- Use the result of a computation that asks nothing. -/
def ofExcept : Except Error α → Query hierarchy α
  | .ok value => .done value
  | .error error => .fail error

/-- Run a query to its outcome, which may be a failure. -/
def outcome : Query hierarchy α → Query hierarchy (Except Error α)
  | .done value => .done (.ok value)
  | .fail error => .done (.error error)
  | .note event rest => .note event rest.outcome
  | .ask name rest => .ask name fun answer sound => (rest answer sound).outcome

/-- Take a number of steps, or fewer if one of them gives a result. -/
def advance {σ : Type} (step : σ → Query hierarchy (σ ⊕ α)) :
    (count : Nat) → σ → Query hierarchy (σ ⊕ α)
  | 0, state => .done (.inl state)
  | count + 1, state =>
      (step state).bind fun
        | .inl state => advance step count state
        | .inr result => .done (.inr result)

/-- Repeat a step until it gives a result, in a number of rounds.  The first
round has the given length, and each further round is twice as long as the one
before, so that a few rounds are worth many steps. -/
def iterate {σ : Type} (step : σ → Query hierarchy (σ ⊕ α)) :
    (rounds length : Nat) → σ → Query hierarchy α
  | 0, _, _ => .fail .unsettled
  | rounds + 1, length, state =>
      (advance step length state).bind fun
        | .inl state => iterate step rounds (2 * length) state
        | .inr result => .done result

/-- The answer of a query, with every class looked up in the tiers. -/
def eval : Query hierarchy α → Except Error α
  | .done value => .ok value
  | .fail error => .error error
  | .note _ rest => rest.eval
  | .ask name rest => (rest (hierarchy.find? name) rfl).eval

end Query

end LocalTable
