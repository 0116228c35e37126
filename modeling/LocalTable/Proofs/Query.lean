import Mathlib.Algebra.Group.Nat.Defs
import Mathlib.Logic.Relation
import LocalTable.Query

/-!
# Outcomes of computations

How a computation that gives a result came to it.  A sequence gives a result only
if each of its parts does; a condition that every step of a loop keeps holds at
its end; and what `iterate` gives is the result of the last of finitely many
steps.  A loop whose steps lower a measure settles, and one that can always take another
step does not.
-/

namespace LocalTable

/-! ## Computations that may fail -/

theorem bind_eq_ok {ε α β : Type} {outcome : Except ε α} {next : α → Except ε β}
    {result : β} :
    outcome >>= next = .ok result ↔ ∃ value, outcome = .ok value ∧
      next value = .ok result := by
  cases outcome with
  | error fault =>
      constructor
      · intro impossible
        cases impossible
      · rintro ⟨value, impossible, _⟩
        cases impossible
  | ok value =>
      constructor
      · intro ran
        exact ⟨value, rfl, ran⟩
      · rintro ⟨_, ⟨⟩, ran⟩
        exact ran

theorem bind_ne_error {ε α β : Type} {outcome : Except ε α}
    {next : α → Except ε β} {fault : ε} (first : outcome ≠ .error fault)
    (second : ∀ value, next value ≠ .error fault) :
    outcome >>= next ≠ .error fault := by
  cases outcome with
  | error other =>
      rintro ⟨⟩
      exact first rfl
  | ok value => exact second value

theorem foldlM_ne_error {ε α β : Type} {step : β → α → Except ε β}
    {items : List α} {start : β} {fault : ε}
    (steps : ∀ before item, step before item ≠ .error fault) :
    items.foldlM step start ≠ .error fault := by
  induction items generalizing start with
  | nil => exact nofun
  | cons item rest ih =>
      rw [List.foldlM_cons]
      exact bind_ne_error (steps start item) fun next => ih

theorem mapM_ne_error {ε α β : Type} {compute : α → Except ε β}
    {items : List α} {fault : ε} (each : ∀ item, compute item ≠ .error fault) :
    items.mapM compute ≠ .error fault := by
  induction items with
  | nil => exact nofun
  | cons item rest ih =>
      rw [List.mapM_cons]
      exact bind_ne_error (each item) fun result => bind_ne_error ih nofun

/-- What is computed for the items of a list is computed for each of them. -/
theorem mapM_eq_ok {ε α β : Type} {compute : α → Except ε β} {items : List α}
    {results : List β} (ran : items.mapM compute = .ok results) :
    (∀ item ∈ items, ∃ result ∈ results, compute item = .ok result) ∧
      ∀ result ∈ results, ∃ item ∈ items, compute item = .ok result := by
  induction items generalizing results with
  | nil =>
      cases ran
      exact ⟨nofun, nofun⟩
  | cons item rest ih =>
      rw [List.mapM_cons] at ran
      obtain ⟨result, first, ran⟩ := bind_eq_ok.mp ran
      obtain ⟨others, ranRest, ran⟩ := bind_eq_ok.mp ran
      cases ran
      obtain ⟨ofItem, ofResult⟩ := ih ranRest
      refine ⟨fun other member => ?_, fun other member => ?_⟩
      · rcases List.mem_cons.mp member with rfl | member
        · exact ⟨result, List.mem_cons_self .., first⟩
        · exact (ofItem other member).imp fun _ => .imp_left (List.mem_cons_of_mem result)
      · rcases List.mem_cons.mp member with rfl | member
        · exact ⟨item, List.mem_cons_self .., first⟩
        · exact (ofResult other member).imp fun _ => .imp_left (List.mem_cons_of_mem item)

/-- A loop over the items of a list with their positions keeps a condition that
each of its rounds carries from its own position to the next one. -/
theorem foldlM_zipIdx_induction {ε α β : Type} {step : β → α × Nat → Except ε β}
    {P : Nat → β → Prop} {items : List α} {first : Nat} {start result : β}
    (kept : ∀ index item before after, items[index]? = some item →
      P (first + index) before →
      step before (item, first + index) = .ok after → P (first + index + 1) after)
    (holds : P first start) (ran : (items.zipIdx first).foldlM step start = .ok result) :
    P (first + items.length) result := by
  induction items generalizing first start with
  | nil =>
      cases ran
      exact holds
  | cons item rest ih =>
      rw [List.zipIdx_cons, List.foldlM_cons, bind_eq_ok] at ran
      obtain ⟨next, stepped, ran⟩ := ran
      rw [List.length_cons, Nat.add_comm rest.length, ← Nat.add_assoc]
      apply ih _ (kept 0 item start next rfl holds stepped) ran
      intro index other before after found before_holds
      rw [Nat.add_assoc, Nat.add_comm 1] at before_holds ⊢
      exact kept (index + 1) other before after (by simpa using found) before_holds

/-- A loop whose rounds cannot fail. -/
theorem foldl_zipIdx_induction {α β : Type} {step : β → α × Nat → β} {P : Nat → β → Prop}
    {items : List α} {start : β}
    (kept : ∀ index item before, items[index]? = some item → P index before →
      P (index + 1) (step before (item, index)))
    (holds : P 0 start) : P items.length (items.zipIdx.foldl step start) := by
  have ran : items.zipIdx.foldlM
      (fun before item => (pure (step before item) : Except Unit β))
      start = .ok (items.zipIdx.foldl step start) := List.foldlM_pure
  have last := @foldlM_zipIdx_induction Unit α β _ P items 0 _ _ ?_ holds ran
  · rwa [Nat.zero_add] at last
  · intro index item before after found holds stepped
    rw [Nat.zero_add] at holds stepped ⊢
    cases stepped
    exact kept index item before found holds

theorem nodup_eraseDups {α : Type} [BEq α] [LawfulBEq α] (items : List α) :
    items.eraseDups.Nodup := by
  induction isLength : items.length using Nat.strongRecOn generalizing items with
  | ind length ih =>
    cases items with
    | nil => simp
    | cons first rest =>
        rw [List.eraseDups_cons, List.nodup_cons]
        constructor
        · simp
        · apply ih _ _ _ rfl
          rw [← isLength]
          exact Nat.lt_succ_of_le (List.length_filter_le ..)

theorem Error.ne_unsettled {error : Error} (ordinary : error.isBreakdown = false) :
    error ≠ .unsettled := by
  rintro rfl
  cases ordinary

namespace Query

variable {hierarchy : Hierarchy} {α β σ : Type}

theorem bind_done (query : Query hierarchy α) : query.bind .done = query := by
  induction query with
  | done value => rfl
  | fail error => rfl
  | note event rest ih => exact congrArg (Query.note event) ih
  | ask name rest ih => exact congrArg (Query.ask name) (funext₂ ih)

theorem bind_bind {γ : Type} (query : Query hierarchy α) (first : α → Query hierarchy β)
    (second : β → Query hierarchy γ) :
    (query.bind first).bind second = query.bind fun value =>
      (first value).bind second := by
  induction query with
  | done value => rfl
  | fail error => rfl
  | note event rest ih => exact congrArg (Query.note event) ih
  | ask name rest ih => exact congrArg (Query.ask name) (funext₂ ih)

instance : LawfulMonad (Query hierarchy) :=
  .mk' _ bind_done (fun _ _ => rfl) bind_bind

/-! ## Answers of queries -/

@[simp] theorem eval_pure (value : α) :
    (pure value : Query hierarchy α).eval = .ok value := rfl

@[simp] theorem eval_tell (event : Event) :
    (tell event : Query hierarchy Unit).eval = .ok () :=
  rfl

@[simp] theorem eval_ofExcept (outcome : Except Error α) :
    (ofExcept outcome : Query hierarchy α).eval = outcome := by
  cases outcome <;> rfl

theorem eval_bind (query : Query hierarchy α) (next : α → Query hierarchy β) :
    (query >>= next).eval = query.eval >>= fun value => (next value).eval := by
  change (query.bind next).eval = _
  induction query with
  | done value => rfl
  | fail error => rfl
  | note event rest ih => exact ih
  | ask name rest ih => exact ih _ _

theorem eval_bind_of_ok {query : Query hierarchy α}
    {next : α → Query hierarchy β} {value : α} (answered : query.eval = .ok value) :
    (query >>= next).eval = (next value).eval := by
  rw [eval_bind, answered]
  rfl

theorem eval_bind_eq_ok {query : Query hierarchy α} {next : α → Query hierarchy β}
    {result : β} :
    (query >>= next).eval = .ok result ↔
      ∃ value, query.eval = .ok value ∧ (next value).eval = .ok result := by
  rw [eval_bind, bind_eq_ok]

/-- What needs a class goes on with its definition, or fails because there is none. -/
theorem eval_demand_cases {name : BinaryName}
    (next : (data : ClassData) → hierarchy.find? name = some data → Query hierarchy α) :
    (∃ data found, (demand name next).eval = (next data found).eval) ∨
      hierarchy.find? name = none ∧
      (demand name next).eval = .error (.unresolvedClass name) := by
  obtain ⟨rest, isAsk, onFound, onMissing⟩ : ∃ rest, demand name next = .ask name rest ∧
      (∀ data found, rest (some data) found = next data found) ∧
      ∀ missing, rest none missing = .fail (.unresolvedClass name) :=
    ⟨_, rfl, fun _ _ => rfl, fun _ => rfl⟩
  have continued (found? : Option ClassData) (sound : hierarchy.find? name = found?) :
      (∃ data found, (rest found? sound).eval = (next data found).eval) ∨
        hierarchy.find? name = none ∧
          (rest found? sound).eval = .error (.unresolvedClass name) := by
    cases found? with
    | none => exact .inr ⟨sound, congrArg eval (onMissing sound)⟩
    | some data => exact .inl ⟨data, sound, congrArg eval (onFound data sound)⟩
  rw [isAsk]
  exact continued _ rfl

/-- To need a class is to find it. -/
theorem eval_demand_eq_ok {name : BinaryName}
    {next : (data : ClassData) → hierarchy.find? name = some data → Query hierarchy α}
    {result : α} (answered : (demand name next).eval = .ok result) :
    ∃ data found, (next data found).eval = .ok result := by
  rcases eval_demand_cases next with ⟨data, found, continued⟩ | ⟨_, failed⟩
  · exact ⟨data, found, continued.symm.trans answered⟩
  · cases failed.symm.trans answered

theorem eval_demand_of_found {name : BinaryName} {data : ClassData}
    {next : (data : ClassData) → hierarchy.find? name = some data → Query hierarchy α}
    (found : hierarchy.find? name = some data) :
    (demand name next).eval = (next data found).eval := by
  rcases eval_demand_cases next with ⟨other, otherFound, continued⟩ | ⟨missing, _⟩
  · obtain rfl : other = data := Option.some.inj (otherFound.symm.trans found)
    exact continued
  · cases missing.symm.trans found

/-- Queries that need the same class agree if they agree on its definition. -/
theorem eval_demand_eq_map {name : BinaryName} {f : β → α}
    {first : (data : ClassData) → hierarchy.find? name = some data → Query hierarchy α}
    {second : (data : ClassData) → hierarchy.find? name = some data → Query hierarchy β}
    (agree : ∀ data found, (first data found).eval = f <$> (second data found).eval) :
    (demand name first).eval = f <$> (demand name second).eval := by
  rcases eval_demand_cases first with ⟨data, found, isFirst⟩ | ⟨missing, isFirst⟩
  · rw [isFirst, eval_demand_of_found found, agree data found]
  · rcases eval_demand_cases second with ⟨data, found, _⟩ | ⟨_, isSecond⟩
    · cases missing.symm.trans found
    · rw [isFirst, isSecond]
      rfl

/-- Whatever the query answers, the answer satisfies the condition. -/
def Ensures (query : Query hierarchy α) (P : α → Prop) : Prop :=
  ∀ value, query.eval = .ok value → P value

namespace Ensures

variable {query : Query hierarchy α} {P Q : α → Prop}

theorem pure {value : α} (holds : P value) :
    (pure value : Query hierarchy α).Ensures P := by
  rintro _ ⟨⟩
  exact holds

theorem fail {error : Error} : (Query.fail error : Query hierarchy α).Ensures P := by
  rintro _ ⟨⟩

theorem bind {next : α → Query hierarchy β} {R : β → Prop} (first : query.Ensures P)
    (second : ∀ value, P value → (next value).Ensures R) :
    (query >>= next).Ensures R := by
  intro result ran
  obtain ⟨value, answered, ran⟩ := eval_bind_eq_ok.mp ran
  exact second value (first value answered) result ran

theorem mono (ensures : query.Ensures P) (weaker : ∀ value, P value → Q value) :
    query.Ensures Q :=
  fun value answered => weaker value (ensures value answered)

theorem trivial : query.Ensures fun _ => True :=
  fun _ _ => True.intro

theorem foldlM {step : β → α → Query hierarchy β} {items : List α} {start : β}
    {P : β → Prop} (holds : P start)
    (kept : ∀ item ∈ items, ∀ before, P before → (step before item).Ensures P) :
    (items.foldlM step start).Ensures P := by
  induction items generalizing start with
  | nil => exact pure holds
  | cons item rest ih =>
      rw [List.foldlM_cons]
      refine bind (kept item (List.mem_cons_self ..) start holds) fun next nextHolds => ?_
      exact ih nextHolds fun other member => kept other (List.mem_cons_of_mem _ member)

end Ensures

/-- The query fails, if it does, only in ways that satisfy the condition. -/
def FailsOnly (query : Query hierarchy α) (E : Error → Prop) : Prop :=
  ∀ error, query.eval = .error error → E error

namespace FailsOnly

variable {query : Query hierarchy α} {E : Error → Prop}

theorem pure (value : α) : (pure value : Query hierarchy α).FailsOnly E :=
  nofun

theorem fail {error : Error} (holds : E error) :
    (Query.fail error : Query hierarchy α).FailsOnly E := by
  rintro _ ⟨⟩
  exact holds

theorem bind {next : α → Query hierarchy β} (first : query.FailsOnly E)
    (second : ∀ value, query.eval = .ok value → (next value).FailsOnly E) :
    (query >>= next).FailsOnly E := by
  intro error failed
  rw [eval_bind] at failed
  cases answered : query.eval with
  | error other =>
      rw [answered] at failed
      cases failed
      exact first error answered
  | ok value =>
      rw [answered] at failed
      exact second value answered error failed

end FailsOnly

/-- The query only looks classes up.  It notes nothing, and it fails only where no tier
has the class that it needs. -/
inductive LooksUp : Query hierarchy α → Prop where
  | done (value : α) : LooksUp (.done value)
  | missing {name : BinaryName} (isMissing : hierarchy.find? name = none) :
      LooksUp (.fail (.unresolvedClass name))
  | ask {name : BinaryName}
      {rest : (answer : Option ClassData) → hierarchy.find? name = answer →
        Query hierarchy α}
      (each : ∀ answer sound, LooksUp (rest answer sound)) : LooksUp (.ask name rest)

namespace LooksUp

variable {query : Query hierarchy α}

theorem pure (value : α) : (pure value : Query hierarchy α).LooksUp :=
  .done value

theorem bind {next : α → Query hierarchy β} (first : query.LooksUp)
    (second : ∀ value, (next value).LooksUp) : (query >>= next).LooksUp := by
  induction first with
  | done value => exact second value
  | missing isMissing => exact .missing isMissing
  | ask each ih => exact .ask ih

theorem demand {name : BinaryName}
    {next : (data : ClassData) → hierarchy.find? name = some data → Query hierarchy α}
    (second : ∀ data found, (next data found).LooksUp) : (demand name next).LooksUp := by
  refine .ask fun answer sound => ?_
  cases answer with
  | none => exact .missing sound
  | some data => exact second data sound

theorem failsOnly {E : Error → Prop} (looksUp : query.LooksUp)
    (missing : ∀ name, E (.unresolvedClass name)) : query.FailsOnly E := by
  induction looksUp with
  | done value => exact .pure value
  | missing isMissing => exact .fail (missing _)
  | ask each ih => exact ih _ rfl

end LooksUp

/-- The query gives an answer that satisfies the one condition, or it fails in a way that
satisfies the other one. -/
structure Guarantees (E : Error → Prop) (query : Query hierarchy α)
    (P : α → Prop) : Prop where
  ensures : query.Ensures P
  failsOnly : query.FailsOnly E

namespace Guarantees

variable {query : Query hierarchy α} {E : Error → Prop} {P Q : α → Prop}

theorem pure {value : α} (holds : P value) :
    (pure value : Query hierarchy α).Guarantees E P :=
  ⟨.pure holds, .pure value⟩

theorem bind {next : α → Query hierarchy β} {R : β → Prop} (first : query.Guarantees E P)
    (second : ∀ value, P value → (next value).Guarantees E R) :
    (query >>= next).Guarantees E R :=
  ⟨first.ensures.bind fun value holds => (second value holds).ensures,
    first.failsOnly.bind fun value answered =>
      (second value (first.ensures value answered)).failsOnly⟩

theorem mono (guarantees : query.Guarantees E P) (weaker : ∀ value, P value → Q value) :
    query.Guarantees E Q :=
  ⟨guarantees.ensures.mono weaker, guarantees.failsOnly⟩

theorem foldlM {step : β → α → Query hierarchy β} {items : List α} {start : β}
    {P : β → Prop} (holds : P start)
    (kept : ∀ item ∈ items, ∀ before, P before → (step before item).Guarantees E P) :
    (items.foldlM step start).Guarantees E P := by
  induction items generalizing start with
  | nil => exact pure holds
  | cons item rest ih =>
      rw [List.foldlM_cons]
      refine bind (kept item (List.mem_cons_self ..) start holds) fun next nextHolds => ?_
      exact ih nextHolds fun other member => kept other (List.mem_cons_of_mem _ member)

end Guarantees

/-! ## Repeated steps -/

/-- One state follows another. -/
def Follows (step : σ → Query hierarchy (σ ⊕ α)) (before after : σ) : Prop :=
  (step before).eval = .ok (.inl after)

theorem advance_eq_ok {step : σ → Query hierarchy (σ ⊕ α)} {count : Nat} {state : σ}
    {outcome : σ ⊕ α} (ran : (advance step count state).eval = .ok outcome) :
    ∃ last, Relation.ReflTransGen (Follows step) state last ∧
      (outcome = .inl last ∨ (step last).eval = .ok outcome) := by
  induction count generalizing state with
  | zero =>
      cases ran
      exact ⟨state, .refl, .inl rfl⟩
  | succ count ih =>
      obtain ⟨next, stepped, ran⟩ := eval_bind_eq_ok.mp ran
      cases next with
      | inl next =>
          obtain ⟨last, run, atLast⟩ := ih ran
          exact ⟨last, .head stepped run, atLast⟩
      | inr result =>
          cases ran
          exact ⟨state, .refl, .inr stepped⟩

/-- A result of repeated steps is the result of a step from a state that the start
leads to. -/
theorem iterate_eq_ok {step : σ → Query hierarchy (σ ⊕ α)}
    {rounds length : Nat} {state : σ} {result : α}
    (ran : (iterate step rounds length state).eval = .ok result) :
    ∃ last, Relation.ReflTransGen (Follows step) state last ∧
      (step last).eval = .ok (.inr result) := by
  induction rounds generalizing length state with
  | zero => cases ran
  | succ rounds ih =>
      obtain ⟨outcome, advanced, ran⟩ := eval_bind_eq_ok.mp ran
      obtain ⟨reached, run, atReached⟩ := advance_eq_ok advanced
      cases outcome with
      | inr value =>
          cases ran
          rcases atReached with impossible | stepped
          · cases impossible
          · exact ⟨reached, run, stepped⟩
      | inl next =>
          obtain ⟨last, rest, atLast⟩ := ih ran
          rcases atReached with same | stepped
          · cases same
            exact ⟨last, run.trans rest, atLast⟩
          · exact ⟨last, (run.tail stepped).trans rest, atLast⟩

theorem Guarantees.advance {step : σ → Query hierarchy (σ ⊕ α)} {count : Nat} {state : σ}
    {E : Error → Prop} {P : σ → Prop} {Q : α → Prop} (holds : P state)
    (kept : ∀ before, P before → (step before).Guarantees E (Sum.elim P Q)) :
    (Query.advance step count state).Guarantees E (Sum.elim P Q) := by
  induction count generalizing state with
  | zero => exact .pure holds
  | succ count ih =>
      refine .bind (kept state holds) fun outcome isOutcome => ?_
      cases outcome with
      | inl next => exact ih isOutcome
      | inr result => exact .pure isOutcome

/-- A condition that every step keeps, and that makes every result good, makes the
result of repeated steps good, unless they do not settle. -/
theorem Guarantees.iterate {step : σ → Query hierarchy (σ ⊕ α)}
    {rounds length : Nat} {state : σ} {E : Error → Prop} {P : σ → Prop} {Q : α → Prop}
    (unsettled : E .unsettled) (holds : P state)
    (kept : ∀ before, P before → (step before).Guarantees E (Sum.elim P Q)) :
    (Query.iterate step rounds length state).Guarantees E Q := by
  induction rounds generalizing length state with
  | zero => exact ⟨.fail, .fail unsettled⟩
  | succ rounds ih =>
      refine .bind (.advance holds kept) fun outcome isOutcome => ?_
      cases outcome with
      | inl next => exact ih isOutcome
      | inr result => exact .pure isOutcome

/-! ## Computations that settle -/

/-- The query does not give up on a loop that has not settled. -/
structure Decides (query : Query hierarchy α) : Prop where
  ne_unsettled : query.eval ≠ .error .unsettled

namespace Decides

variable {query : Query hierarchy α}

theorem pure (value : α) : (pure value : Query hierarchy α).Decides :=
  ⟨nofun⟩

theorem bind {next : α → Query hierarchy β} (first : query.Decides)
    (second : ∀ value, query.eval = .ok value → (next value).Decides) :
    (query >>= next).Decides := by
  refine ⟨fun failed => ?_⟩
  rw [eval_bind] at failed
  cases answered : query.eval with
  | error error =>
      rw [answered] at failed
      cases failed
      exact first.ne_unsettled answered
  | ok value =>
      rw [answered] at failed
      exact (second value answered).ne_unsettled failed

/-- A query that decides fails as its steps do. -/
theorem failsOnly {E : Error → Prop} (decides : query.Decides)
    (fails : query.FailsOnly fun error => error = .unsettled ∨ E error) :
    query.FailsOnly E := by
  intro error failed
  rcases fails error failed with rfl | holds
  · exact absurd failed decides.ne_unsettled
  · exact holds

end Decides

theorem FailsOnly.decides {query : Query hierarchy α}
    (settles : query.FailsOnly (· ≠ .unsettled)) :
    query.Decides :=
  ⟨fun failed => settles _ failed rfl⟩

/-- Every step keeps the condition and lowers the measure. -/
def Lowers (step : σ → Query hierarchy (σ ⊕ α)) (P : σ → Prop)
    (measure : σ → Nat) : Prop :=
  ∀ before after, P before → Follows step before after → P after ∧
    measure after < measure before

variable {step : σ → Query hierarchy (σ ⊕ α)} {P : σ → Prop}
  {measure : σ → Nat} {state : σ}

/-- Steps that have not come to a result have each lowered the measure. -/
theorem Lowers.advance {count : Nat} {last : σ} (lowers : Lowers step P measure)
    (holds : P state) (ran : (Query.advance step count state).eval = .ok (.inl last)) :
    P last ∧ measure last + count ≤ measure state := by
  induction count generalizing state with
  | zero =>
      cases ran
      exact ⟨holds, Nat.le_refl _⟩
  | succ count ih =>
      obtain ⟨outcome, stepped, ran⟩ := eval_bind_eq_ok.mp ran
      cases outcome with
      | inl next =>
          obtain ⟨nextHolds, falls⟩ := lowers state next holds stepped
          obtain ⟨lastHolds, bound⟩ := ih nextHolds ran
          exact ⟨lastHolds, by omega⟩
      | inr result => cases ran

theorem Lowers.exists_last {count : Nat} {result : α} (lowers : Lowers step P measure)
    (holds : P state) (ran : (Query.advance step count state).eval = .ok (.inr result)) :
    ∃ last, P last ∧ (step last).eval = .ok (.inr result) := by
  induction count generalizing state with
  | zero => cases ran
  | succ count ih =>
      obtain ⟨outcome, stepped, ran⟩ := eval_bind_eq_ok.mp ran
      cases outcome with
      | inl next => exact ih (lowers state next holds stepped).1 ran
      | inr result =>
          cases ran
          exact ⟨state, holds, stepped⟩

theorem Lowers.decides_advance {count : Nat} (lowers : Lowers step P measure)
    (decides : ∀ state, P state → (step state).Decides) (holds : P state) :
    (Query.advance step count state).Decides := by
  induction count generalizing state with
  | zero => exact Decides.pure _
  | succ count ih =>
      refine Decides.bind (decides state holds) fun outcome stepped => ?_
      cases outcome with
      | inl next => exact ih (lowers state next holds stepped).1
      | inr result => exact Decides.pure _

/-- Repeated steps settle if the rounds are worth more steps than the measure allows. -/
theorem Lowers.decides_iterate {rounds length : Nat} (lowers : Lowers step P measure)
    (decides : ∀ state, P state → (step state).Decides) (holds : P state)
    (enough : measure state + length < length * 2 ^ rounds) :
    (iterate step rounds length state).Decides := by
  induction rounds generalizing length state with
  | zero => omega
  | succ rounds ih =>
      refine Decides.bind (lowers.decides_advance decides holds)
        fun outcome advanced => ?_
      cases outcome with
      | inl next =>
          obtain ⟨nextHolds, bound⟩ := lowers.advance holds advanced
          refine ih nextHolds ?_
          rw [Nat.pow_succ] at enough
          calc measure next + 2 * length
              ≤ measure state + length := by omega
            _ < length * (2 ^ rounds * 2) := enough
            _ = 2 * length * 2 ^ rounds := by
                rw [Nat.mul_comm (2 ^ rounds), ← Nat.mul_assoc, Nat.mul_comm length]
      | inr result => exact Decides.pure _

/-! ## Steps without end -/

/-- No number of steps comes to a result. -/
def Endless (step : σ → Query hierarchy (σ ⊕ α)) (state : σ) : Prop :=
  ∀ count, ∃ last, (advance step count state).eval = .ok (.inl last)

theorem eval_advance_add {first second : Nat} {reached : σ}
    (ran : (advance step first state).eval = .ok (.inl reached)) :
    (advance step (first + second) state).eval = (advance step second reached).eval := by
  induction first generalizing state with
  | zero =>
      cases ran
      rw [Nat.zero_add]
  | succ first ih =>
      obtain ⟨outcome, stepped, ran⟩ := eval_bind_eq_ok.mp ran
      cases outcome with
      | inl next =>
          rw [Nat.succ_add]
          exact (eval_bind_of_ok stepped).trans (ih ran)
      | inr result => cases ran

/-- Steps do not end if they lead to a condition under which another step can be taken
that keeps it. -/
theorem endless_of_onward {first : Nat} {reached : σ}
    (onward : ∀ before, P before → ∃ after, Follows step before after ∧ P after)
    (ran : (advance step first state).eval = .ok (.inl reached)) (holds : P reached) :
    Endless step state := by
  intro count
  induction count generalizing first state reached with
  | zero => exact ⟨state, rfl⟩
  | succ count ih =>
      cases first with
      | zero =>
          cases ran
          obtain ⟨next, follows, nextHolds⟩ := onward state holds
          have here : (advance step 0 next).eval = .ok (.inl next) := rfl
          obtain ⟨last, rest⟩ := ih here nextHolds
          exact ⟨last, eval_bind_eq_ok.mpr ⟨_, follows, rest⟩⟩
      | succ first =>
          obtain ⟨outcome, stepped, ran⟩ := eval_bind_eq_ok.mp ran
          cases outcome with
          | inl next =>
              obtain ⟨last, rest⟩ := ih ran holds
              exact ⟨last, eval_bind_eq_ok.mpr ⟨_, stepped, rest⟩⟩
          | inr result => cases ran

theorem Endless.iterate {rounds length : Nat} (endless : Endless step state) :
    (iterate step rounds length state).eval = .error .unsettled := by
  induction rounds generalizing length state with
  | zero => rfl
  | succ rounds ih =>
      obtain ⟨next, ran⟩ := endless length
      have onward : Endless step next := by
        intro count
        obtain ⟨last, further⟩ := endless (length + count)
        exact ⟨last, (eval_advance_add ran).symm.trans further⟩
      exact (eval_bind_of_ok ran).trans (ih onward)

end Query

end LocalTable
