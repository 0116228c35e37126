import LocalTable.Edit
import LocalTable.Proofs.Query

/-!
# Outcomes of changes

What a sequence of steps makes of a method.  Up to the first step that fails, each
step goes on with the method as the step before has left it.
-/

namespace LocalTable

theorem Query.eval_outcome {hierarchy : Hierarchy} {α : Type}
    (query : Query hierarchy α) :
    query.outcome.eval = .ok query.eval := by
  induction query with
  | done value => rfl
  | fail error => rfl
  | note event rest ih => exact ih
  | ask name rest ih => exact ih _ _

namespace Edit

variable {hierarchy : Hierarchy} {α β : Type} {before middle after : Method}

/-- The edit has the outcome, and leaves the method as the second one. -/
def Yields (edit : Edit hierarchy α) (before : Method) (outcome : Except Error α)
    (after : Method) : Prop :=
  (edit.runOn before).eval = .ok (outcome, after)

theorem yields_pure (value : α) : (pure value : Edit hierarchy α).Yields before
    (.ok value) before :=
  rfl

theorem yields_get : (get : Edit hierarchy Method).Yields before (.ok before) before :=
  rfl

theorem yields_set : (set after : Edit hierarchy PUnit).Yields before (.ok ⟨⟩) after :=
  rfl

theorem yields_modify (change : Method → Method) :
    (modify change : Edit hierarchy PUnit).Yields before (.ok ⟨⟩) (change before) :=
  rfl

theorem yields_ask (query : Query hierarchy α) :
    (ask query).Yields before query.eval before :=
  Query.eval_bind_eq_ok.mpr ⟨query.eval, query.eval_outcome, rfl⟩

theorem yields_ask_of_eval {query : Query hierarchy α} {outcome : Except Error α}
    (answered : query.eval = outcome) : (ask query).Yields before outcome before :=
  answered ▸ yields_ask query

theorem yields_tell (event : Event) :
    (tell event : Edit hierarchy Unit).Yields before (.ok ()) before :=
  yields_ask _

variable {edit : Edit hierarchy α} {next : α → Edit hierarchy β}

theorem Yields.bind {value : α} {outcome : Except Error β}
    (first : edit.Yields before (.ok value) middle)
    (second : (next value).Yields middle outcome after) :
    (edit >>= next).Yields before outcome after :=
  Query.eval_bind_eq_ok.mpr ⟨(.ok value, middle), first, second⟩

theorem Yields.bind_error {error : Error}
    (first : edit.Yields before (.error error) after) :
    (edit >>= next).Yields before (.error error) after :=
  Query.eval_bind_eq_ok.mpr ⟨(.error error, after), first, rfl⟩

theorem Yields.eval_apply {outcome : Except Error α}
    (yields : edit.Yields before outcome after) :
    (edit.apply before).eval = outcome.map (after, ·) := by
  rw [Edit.apply, Query.eval_bind_of_ok yields]
  cases outcome <;> rfl

end Edit

end LocalTable
