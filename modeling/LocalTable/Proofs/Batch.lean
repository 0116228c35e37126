import LocalTable.Batch
import LocalTable.Proofs.Breakdown
import LocalTable.Proofs.Session
import LocalTable.Proofs.Subtyping.LeastUpperBound

/-!
# Methods of a batch are independent

A batch is processed in one session, method by method, and its classes change on the
way. Yet each method comes out as if it were processed alone: the hierarchy knows
nothing of methods, and what a session remembers does not change its answers.  Only a
method that breaks down takes the batch with it.
-/

namespace LocalTable

namespace Query

variable {hierarchy : Hierarchy} {α β : Type}

/-- What follows a query that answers unless it stops. -/
theorem eval_bind_of_stop {query : Query hierarchy α}
    {next : α → Query hierarchy β} {value : α} {stop : Option Error}
    (answered : query.eval = stop.elim (.ok value) .error) :
    (query >>= next).eval = stop.elim (next value).eval .error := by
  rw [eval_bind, answered]
  cases stop <;> rfl

/-- If each item has an answer unless it stops, the items together have the list of these
answers, unless one of them stops. -/
theorem eval_mapM_of_stop {act : α → Query hierarchy β} {answer : α → β}
    {stop? : α → Option Error}
    (each : ∀ item, (act item).eval = (stop? item).elim (.ok (answer item)) .error)
    (items : List α) :
    (items.mapM act).eval = (items.findSome? stop?).elim
      (.ok (items.map answer)) .error := by
  induction items with
  | nil => rfl
  | cons item rest ih =>
      rw [List.mapM_cons, eval_bind_of_stop (each item), List.findSome?_cons]
      cases stop? item with
      | some error => rfl
      | none =>
          rw [Option.elim_none, eval_bind_of_stop ih]
          rfl

end Query

namespace Batch

/-- What a method becomes: as the call has left it, or as it was if the call has
failed. -/
def keep (before : Method) : Except Error (Method × Bool) → Method
  | .ok (processed, _) => processed
  | .error _ => before

/-- Has the call changed the method? -/
def changes : Except Error (Method × Bool) → Bool
  | .ok (_, changed) => changed
  | .error _ => false

/-- The report of a call that has failed. -/
def failure? (owner : BinaryName) (method : Method) :
    Except Error (Method × Bool) → Option Error
  | .ok _ => none
  | .error cause => some (.method owner method.name method.descriptor.render cause)

/-- Why a call breaks down, if it does. -/
def breakdown? : Except Error (Method × Bool) → Option Error
  | .ok _ => none
  | .error cause => if cause.isBreakdown then some cause else none

/-- The outcome of a method that is processed alone, in a fresh session over the hierarchy
of the batch. -/
def alone (settings : Settings) (libraries : List Tier) (classes : List Class)
    (owner : BinaryName) (method : Method) : Except Error (Method × Bool) :=
  (Session.run (Query.processMethod owner method settings :
    Query (hierarchy classes libraries) (Method × Bool)) .fresh).1

theorem alone_eq_eval (settings : Settings) (libraries : List Tier) (classes : List Class)
    (owner : BinaryName) (method : Method) :
    alone settings libraries classes owner method =
      (Query.processMethod owner method settings :
        Query (hierarchy classes libraries) _).eval :=
  Session.run_fst _ _

/-- The first breakdown among the methods of a batch when each is processed alone. -/
def firstBreakdown? (settings : Settings) (libraries : List Tier) (classes : List Class) :
    Option Error :=
  classes.findSome? fun declared => declared.methods.findSome? fun method =>
    breakdown? (alone settings libraries classes declared.name method)

/-- The hierarchy of a batch depends on the heads of its classes only. -/
theorem hierarchy_eq_of_data {first second : List Class}
    (same : first.map Class.data = second.map Class.data) (libraries : List Tier) :
    hierarchy first libraries = hierarchy second libraries := by
  unfold hierarchy
  rw [same]

end Batch

namespace Query

variable {hierarchy : Hierarchy} (settings : Settings)

theorem eval_processAndReport (owner : BinaryName) (method : Method) :
    (processAndReport owner method settings : Query hierarchy _).eval =
      (Batch.breakdown? (processMethod owner method settings :
        Query hierarchy _).eval).elim
        (.ok
          ⟨Batch.keep method (processMethod owner method settings :
            Query hierarchy _).eval,
          Batch.changes (processMethod owner method settings : Query hierarchy _).eval,
          Batch.failure? owner method
            (processMethod owner method settings : Query hierarchy _).eval⟩) .error := by
  rw [processAndReport, eval_bind_of_ok (eval_outcome _)]
  cases (processMethod owner method settings : Query hierarchy _).eval with
  | ok processed => rfl
  | error cause =>
      simp only [Batch.breakdown?]
      split <;> rfl

theorem eval_processClass (declared : Class) :
    (processClass declared settings : Query hierarchy _).eval =
      (declared.methods.findSome? fun method => Batch.breakdown?
        (processMethod declared.name method settings : Query hierarchy _).eval).elim
      (.ok { declared := { declared with
              methods := declared.methods.map fun method => Batch.keep method
                (processMethod declared.name method settings : Query hierarchy _).eval }
             changed := declared.methods.any fun method => Batch.changes
               (processMethod declared.name method settings : Query hierarchy _).eval
             failures := declared.methods.filterMap fun method =>
               Batch.failure? declared.name method
                 (processMethod declared.name method settings : Query hierarchy _).eval })
      .error := by
  rw [processClass,
    eval_bind_of_stop (eval_mapM_of_stop (eval_processAndReport settings _) _)]
  simp only [eval_pure, List.map_map, List.any_map, List.filterMap_map, Function.comp_def]

theorem eval_processClasses (classes : List Class) :
    (processClasses classes settings : Query hierarchy _).eval =
      (classes.findSome? fun declared => declared.methods.findSome? fun method =>
        Batch.breakdown?
          (processMethod declared.name method settings : Query hierarchy _).eval).elim
      (.ok (classes.map fun declared => { declared with
          methods := declared.methods.map fun method => Batch.keep method
            (processMethod declared.name method settings : Query hierarchy _).eval },
        { modified := (classes.filter fun declared => declared.methods.any fun method =>
            Batch.changes
              (processMethod declared.name method settings : Query hierarchy _).eval).map
                Class.name
          failures := classes.flatMap fun declared =>
              declared.methods.filterMap fun method =>
            Batch.failure? declared.name method
              (processMethod declared.name method settings : Query hierarchy _).eval }))
      .error := by
  rw [processClasses, eval_bind_of_stop
    (eval_mapM_of_stop (eval_processClass settings) _), eval_bind_of_ok (eval_tell _)]
  simp only [eval_pure, List.map_map, List.filter_map, List.flatMap_map,
    Function.comp_def]

end Query

namespace Batch

/-- The batch breaks down if the lone call of one of its methods does, and otherwise
gives a report. -/
theorem eval_run (settings : Settings) (libraries : List Tier) (classes : List Class) :
    (run settings libraries classes).eval =
      (firstBreakdown? settings libraries classes).elim
        (.ok (classes.map fun declared => { declared with
            methods := declared.methods.map fun method =>
              keep method (alone settings libraries classes declared.name method) },
          { modified := (classes.filter fun declared => declared.methods.any fun method =>
              changes (alone settings libraries classes declared.name method)).map
                Class.name
            failures := classes.flatMap fun declared =>
                declared.methods.filterMap fun method =>
              failure? declared.name method
                (alone settings libraries classes declared.name method) })) .error := by
  rw [run, Query.eval_processClasses]
  simp only [firstBreakdown?, alone_eq_eval]

/-- A method whose code gives no cause for it does not break down when it is processed
alone. -/
theorem firstBreakdown?_eq_none {settings : Settings} {libraries : List Tier}
    {classes : List Class} (acyclic : (hierarchy classes libraries).Acyclic)
    (rooted : (hierarchy classes libraries).Rooted)
    (sturdy : ∀ declared ∈ classes, ∀ method ∈ declared.methods, ∀ code,
      method.code = some code → code.Sturdy) :
    firstBreakdown? settings libraries classes = none := by
  refine List.findSome?_eq_none_iff.mpr fun declared inBatch => ?_
  refine List.findSome?_eq_none_iff.mpr fun method inClass => ?_
  rw [alone_eq_eval]
  cases outcome : (Query.processMethod declared.name method settings :
      Query (hierarchy classes libraries) _).eval with
  | ok processed => rfl
  | error cause =>
      have ordinary := Query.failsOnly_processMethod acyclic rooted
        (sturdy declared inBatch method inClass) cause outcome
      exact if_neg (by simp [ordinary])

/-- Unless a method of the batch breaks down when it is processed alone, each method is
left as its lone call leaves it, and as it was if that fails.  Exactly the failures of
these lone calls are reported, and exactly the classes with a method that its lone call
changes, both in the order of the batch.  A batch breaks down like the first of its
methods that does.  None does if supertypes form no cycle, the root class has none, and
the code of no method gives cause. -/
theorem run_processes_alone (settings : Settings) (libraries : List Tier)
    (classes : List Class) :
    (firstBreakdown? settings libraries classes = none → ∃ processed report session,
      Session.run (run settings libraries classes) .fresh =
        (.ok (processed, report), session) ∧
      processed = classes.map (fun declared => { declared with
        methods := declared.methods.map fun method =>
          keep method (alone settings libraries classes declared.name method) }) ∧
      report.failures = classes.flatMap
          (fun declared => declared.methods.filterMap fun method =>
        failure? declared.name method
          (alone settings libraries classes declared.name method)) ∧
      report.modified = (classes.filter fun declared => declared.methods.any fun method =>
        changes (alone settings libraries classes declared.name method)).map Class.name ∧
      hierarchy processed libraries = hierarchy classes libraries) ∧
    (∀ cause, firstBreakdown? settings libraries classes = some cause →
      (Session.run (run settings libraries classes) .fresh).1 = .error cause) ∧
    ((hierarchy classes libraries).Acyclic → (hierarchy classes libraries).Rooted →
      (∀ declared ∈ classes, ∀ method ∈ declared.methods, ∀ code,
        method.code = some code →
        code.Sturdy) → firstBreakdown? settings libraries classes = none) := by
  have answered := (Session.run_fst (run settings libraries classes) .fresh).trans
    (eval_run settings libraries classes)
  refine ⟨fun unbroken => ?_, fun cause breaks => ?_, firstBreakdown?_eq_none⟩
  · rw [unbroken] at answered
    refine ⟨_, _, _, Prod.ext answered rfl, rfl, rfl, rfl, ?_⟩
    apply hierarchy_eq_of_data
    rw [List.map_map]
    rfl
  · rw [answered, breaks]
    rfl

/-- Supertypes of classes of the platform, each before the classes below it. -/
def platformOrder : List BinaryName :=
  [.object, Platform.serializable, Platform.comparable, Platform.charSequence,
    Platform.cloneable, Platform.appendable, Platform.runnable, Platform.autoCloseable,
    Platform.iterable, Platform.map, Platform.collection, Platform.list, Platform.number,
    Platform.abstractStringBuilder, .throwable, Platform.failure, Platform.exception,
    Platform.runtimeException, Platform.indexOutOfBounds, Platform.abstractCollection,
    Platform.abstractList, Platform.abstractMap]

/-- A static method that takes an `int`. -/
def takingMethod (name : UnqualifiedName) (instructions : Array Instruction) : Method :=
  { name := name
    descriptor := ⟨[.base .int], none⟩
    access := ⟨8⟩
    code := some ⟨1, 1, instructions, [], none⟩
    parameterNames := none }

/-- A method that returns at once. -/
def returningMethod : Method :=
  takingMethod ⟨"second", by decide⟩ #[.returnVoid]

/-- A batch of one class, in which a method with the given code comes before one that
returns at once. -/
def smallBatch (instructions : Array Instruction) : List Class :=
  [{ name := .known "Batched"
     superclass := some .object
     interfaces := []
     access := ⟨0⟩
     methods := [takingMethod ⟨"first", by decide⟩ instructions, returningMethod] }]

theorem hierarchy_smallBatch (instructions : Array Instruction) :
    hierarchy (smallBatch instructions) [] = hierarchy (smallBatch #[]) [] :=
  hierarchy_eq_of_data rfl []

theorem acyclic_smallBatch (instructions : Array Instruction) :
    (hierarchy (smallBatch instructions) []).Acyclic := by
  rw [hierarchy_smallBatch]
  exact Hierarchy.acyclic_of_order platformOrder (by decide +kernel)

/-- A method that pops from the empty stack is reported, and the next one gets its
table. -/
theorem small_batch_processes_alone :
    firstBreakdown? {} [] (smallBatch #[.pop, .returnVoid]) = none ∧
      ∃ processed report session,
        Session.run (run {} [] (smallBatch #[.pop, .returnVoid])) .fresh =
          (.ok (processed, report), session) ∧
        report.failures = [.method (.known "Batched") ⟨"first", by decide⟩ "(I)V"
          (.frame 0 .emptyStack)] ∧
        report.modified = [.known "Batched"] := by
  obtain ⟨reports, _, steady⟩ :=
    run_processes_alone {} [] (smallBatch #[.pop, .returnVoid])
  have rooted : (hierarchy (smallBatch #[.pop, .returnVoid]) []).Rooted := by
    rintro _ ⟨⟩
    rfl
  have unbroken := steady (acyclic_smallBatch _) rooted ?_
  · obtain ⟨processed, report, session, ran, _, failures, modified, _⟩ := reports unbroken
    simp only [alone_eq_eval] at failures modified
    refine ⟨unbroken, processed, report, session, ran, failures.trans ?_,
      modified.trans ?_⟩
    · decide +kernel
    · decide +kernel
  · intro declared inBatch method inClass code hasCode
    cases List.mem_singleton.mp inBatch
    rcases List.mem_pair.mp inClass with rfl | rfl
    all_goals
      cases hasCode
      exact ⟨by rintro _ ⟨⟩; rfl, by decide, by decide⟩

/-- A method that ends with a conditional jump takes the batch with it, so the next one
is not processed, although it would be if it were alone. -/
theorem small_batch_breaks_down :
    (hierarchy (smallBatch #[.label ⟨0⟩, .intConstant 0, .branchZero .eq ⟨0⟩])
      []).Acyclic ∧
      changes (alone {} [] (smallBatch #[.label ⟨0⟩, .intConstant 0, .branchZero .eq ⟨0⟩])
        (.known "Batched") returningMethod) = true ∧
      (Session.run (run {} [] (smallBatch
        #[.label ⟨0⟩, .intConstant 0, .branchZero .eq ⟨0⟩])) .fresh).1 =
          .error (.beyondCode 3) := by
  refine ⟨acyclic_smallBatch _, ?_, ?_⟩
  · rw [alone_eq_eval]
    decide +kernel
  · have breaks : firstBreakdown? {} []
        (smallBatch #[.label ⟨0⟩, .intConstant 0, .branchZero .eq ⟨0⟩]) =
          some (.beyondCode 3) := by
      simp only [firstBreakdown?, alone_eq_eval]
      decide +kernel
    rw [Session.run_fst, eval_run, breaks]
    rfl

end Batch

end LocalTable
