import LocalTable.Class
import LocalTable.Query

/-!
# Changes to methods

A method is changed in place, step by step.  A step may fail.  Then the steps after
it are left out, but what the steps before it have changed stays changed.
-/

namespace LocalTable

/-- Computations that change a method, and keep what they have changed if they fail. -/
abbrev Edit (hierarchy : Hierarchy) := ExceptT Error (StateT Method (Query hierarchy))

namespace Edit

variable {hierarchy : Hierarchy} {α : Type}

/-- Use the answer of a query, which does not touch the method. -/
def ask (query : Query hierarchy α) : Edit hierarchy α :=
  ExceptT.mk (StateT.lift query.outcome)

/-- Note an event. -/
def tell (event : Event) : Edit hierarchy Unit :=
  ask (Query.tell event)

/-- What becomes of a method: the outcome, and the method afterwards. -/
def runOn (edit : Edit hierarchy α) (method : Method) :
    Query hierarchy (Except Error α × Method) :=
  edit.run.run method

/-- The changed method and the result, if there is one. -/
def apply (edit : Edit hierarchy α) (method : Method) : Query hierarchy (Method × α) := do
  match ← edit.runOn method with
  | (.ok result, changed) => return (changed, result)
  | (.error error, _) => .fail error

end Edit

end LocalTable
