import LocalTable.Proofs.Refine.Stores
import LocalTable.Proofs.Trim.Losses
import LocalTable.Proofs.Walk

/-!
# Stores that are found for a load

To refine what is loaded from a slot, one walks back from the load along the flow and
collects the stores of the slot.  The walk ends at a store that does not fit, but it
goes on beyond one that does.  So it also finds stores whose values have been
overwritten, as long as everything that has overwritten them is found as well.
-/

namespace LocalTable

/-- The instruction at the position stores to the slot. -/
def Scene.StoresTo (scene : Scene) (slot position : Nat) : Prop :=
  scene.instructions[position]?.bind Instruction.stored? = some slot

/-- A store of the slot that leaves a type there which fits both the local that is
loaded and the use of the loaded value. -/
def Scene.FitsLoad (hierarchy : Hierarchy) (scene : Scene) (frames : Frames) (slot : Nat)
    (type expected : ValueType) (store : Nat) : Prop :=
  scene.StoresTo slot store ∧ ∃ stored, frames.localAt (store + 1) slot = some stored ∧
    (Query.isCompatible stored type : Query hierarchy _).eval = .ok true ∧
    (Query.isCompatible stored expected : Query hierarchy _).eval = .ok true

namespace Query

variable {hierarchy : Hierarchy} {scene : Scene} {frames : Frames} {start slot : Nat}
  {type expected : ValueType}

/-- The walk goes on from a position, unless a store there does not fit. -/
def GoesOnBefore (hierarchy : Hierarchy) (scene : Scene) (frames : Frames) (slot : Nat)
    (type expected : ValueType) (position before : Nat) : Prop :=
  before ∈ scene.flow.predecessors position ∧
    (scene.StoresTo slot position →
      scene.FitsLoad hierarchy frames slot type expected position)

theorem collects_visitForStore :
    Walk.Collects (visitForStore scene frames slot type expected : _ → _ →
      Query hierarchy _) (GoesOnBefore hierarchy scene frames slot type expected)
      (fun position store =>
        store = position ∧ scene.FitsLoad hierarchy frames slot type expected
          position) := by
  intro position state next onward visited
  unfold visitForStore at visited
  split at visited
  next isStore =>
    have stops (isAnswer : (state, []) = (next, onward))
        (misfit : ¬scene.FitsLoad hierarchy frames slot type expected position) :
        (∀ other, other ∈ onward ↔
          GoesOnBefore hierarchy scene frames slot type expected position other) ∧
        ∀ store, store ∈ next ↔ store ∈ state ∨
          store = position ∧ scene.FitsLoad hierarchy frames slot type expected
              position := by
      cases isAnswer
      have stores : scene.StoresTo slot position := isStore
      simp [GoesOnBefore, misfit, stores]
    split at visited
    next isEmpty =>
      apply stops (Except.ok.inj visited)
      rintro ⟨_, stored, held, _⟩
      cases isEmpty.symm.trans held
    next stored held =>
      obtain ⟨fitsLocal, isLocal, visited⟩ := eval_bind_eq_ok.mp visited
      cases fitsLocal with
      | false =>
          apply stops (Except.ok.inj visited)
          rintro ⟨_, other, otherHeld, fits, _⟩
          cases held.symm.trans otherHeld
          cases isLocal.symm.trans fits
      | true =>
          obtain ⟨fitsUse, isUse, visited⟩ := eval_bind_eq_ok.mp visited
          cases fitsUse with
          | false =>
              apply stops (Except.ok.inj visited)
              rintro ⟨_, other, otherHeld, _, fits⟩
              cases held.symm.trans otherHeld
              cases isUse.symm.trans fits
          | true =>
              cases visited
              have fits : scene.FitsLoad hierarchy frames slot type expected position :=
                ⟨isStore, stored, held, isLocal, isUse⟩
              simp [GoesOnBefore, fits]
  next notStore =>
    cases visited
    have noStore : ¬scene.StoresTo slot position := notStore
    simp [GoesOnBefore, Scene.FitsLoad, noStore]

/-- The walk back from a load comes to the store, which fits. -/
def FoundFrom (hierarchy : Hierarchy) (scene : Scene) (frames : Frames) (slot : Nat)
    (type expected : ValueType) (load store : Nat) : Prop :=
  Walk.Explored scene.instructions.size
    (GoesOnBefore hierarchy scene frames slot type expected)
      [load] store ∧
    scene.FitsLoad hierarchy frames slot type expected store

theorem mem_reachingStores_iff {stores : List Nat} {store : Nat}
    (answered : (reachingStores scene frames start slot type expected :
      Query hierarchy _).eval =
      .ok stores) :
    store ∈ stores ↔ FoundFrom hierarchy scene frames slot type expected start store := by
  rw [Walk.mem_run_iff collects_visitForStore answered]
  constructor
  · rintro (impossible | ⟨_, isExplored, rfl, fits⟩)
    · cases impossible
    · exact ⟨isExplored, fits⟩
  · rintro ⟨isExplored, fits⟩
    exact .inr ⟨store, isExplored, rfl, fits⟩

/-- Control goes from one position to the other, and a store to the slot at the latter
fits. -/
def FittingStep (hierarchy : Hierarchy) (scene : Scene) (frames : Frames) (slot : Nat)
    (type expected : ValueType) (before after : Nat) : Prop :=
  scene.flow.Precedes before after ∧
    (scene.StoresTo slot after → scene.FitsLoad hierarchy frames slot type expected after)

/-- The walk takes the steps of control backwards. -/
theorem explored_iff {limit : Nat} {ranges : List ProtectedRange} {position : Nat}
    (coherent : scene.flow.Coherent limit scene.instructions.size ranges)
    (closed : scene.flow.Closed) :
    Walk.Explored scene.instructions.size
        (GoesOnBefore hierarchy scene frames slot type expected) [start] position ↔
      start < scene.instructions.size ∧
        Relation.ReflTransGen (FittingStep hierarchy scene frames slot type expected)
          position start := by
  constructor
  · intro explored
    induction explored with
    | start isPending inBounds =>
        cases List.mem_singleton.mp isPending
        exact ⟨inBounds, .refl⟩
    | onward explored goesOn _ ih =>
        have precedes := (coherent.mem_predecessors_iff closed explored.lt).mp goesOn.1
        exact ⟨ih.1, .head ⟨precedes, goesOn.2⟩ ih.2⟩
  · rintro ⟨inBounds, path⟩
    induction path using Relation.ReflTransGen.head_induction_on with
    | refl => exact .start (List.mem_singleton_self start) inBounds
    | head step _ explored =>
        have isBefore := (coherent.mem_predecessors_iff closed explored.lt).mpr step.1
        exact .onward explored ⟨isBefore, step.2⟩
          (coherent.lt_of_precedes step.1 explored.lt)

/-- A store is found exactly if it fits, and if control gets from it to the start on a
way on which all further stores to the slot fit as well.  So a store that has been
overwritten is found together with the stores that have overwritten it.  Control comes
to a position from where the flow says, or from the position before if it comes from
nowhere. -/
theorem reaching_stores_found {body : Body} {branches completed flow : Flow}
    {computed trimmed : Frames} {liveness : Liveness} {stores : List Nat}
    (trimming : Trimming hierarchy body branches completed flow computed liveness trimmed)
    (answered : (reachingStores (.ofBody body flow) frames start slot type expected :
      Query hierarchy _).eval = .ok stores) (store : Nat) :
    store ∈ stores ↔
      (Scene.ofBody body flow).FitsLoad hierarchy frames slot type expected store ∧
        start < body.instructions.size ∧
        Relation.ReflTransGen
          (FittingStep hierarchy (.ofBody body flow) frames slot type expected)
            store start := by
  obtain ⟨ranges, coherent⟩ := trimming.coherent
  rw [mem_reachingStores_iff answered, FoundFrom, explored_iff coherent trimming.closed]
  exact and_comm

/-- A method that gives a local one value and then another one, which it loads. -/
def overwritingBody : Body :=
  .plain [] 1 1 #[.intConstant 5, .store .int 0, .intConstant 0, .store .int 0,
    .load .int 0, .pop, .returnVoid]

theorem observe_overwriting : (observe overwritingBody (fun flow _ _ trimmed =>
      (flow.predecessors 4,
        (reachingStores (.ofBody overwritingBody flow) trimmed 4 0 .int .boolean :
          Query ⟨[]⟩ _).eval)) : Query ⟨[]⟩ _).eval = .ok ([3], .ok [3, 1]) := by
  decide +kernel

/-- Both stores fit, so control gets from the first one to the load through the second
one. -/
theorem overwriting_stores_found :
    ∃ branches completed flow frames liveness trimmed,
      Trimming ⟨[]⟩ overwritingBody branches completed flow frames liveness trimmed ∧
      (reachingStores (.ofBody overwritingBody flow) trimmed 4 0 .int .boolean :
        Query ⟨[]⟩ _).eval = .ok [3, 1] ∧
      (Scene.ofBody overwritingBody flow).FitsLoad ⟨[]⟩ trimmed 0 .int .boolean 1 ∧
      Relation.ReflTransGen (FittingStep ⟨[]⟩ (.ofBody overwritingBody flow)
        trimmed 0 .int .boolean) 1 4 := by
  rcases exists_trimming observe_overwriting with
    ⟨branches, completed, flow, frames, liveness, trimmed, trimming, seen⟩
  have answered := (Prod.mk.inj seen).2
  have ⟨fits, _, path⟩ := (reaching_stores_found trimming answered 1).mp (by simp)
  exact ⟨branches, completed, flow, frames, liveness, trimmed, trimming,
    answered, fits, path⟩

/-- A store is found although control gets from it to the load only through another
one. -/
theorem overwritten_store_found :
    ∃ branches completed flow frames liveness trimmed,
      Trimming ⟨[]⟩ overwritingBody branches completed flow frames liveness trimmed ∧
      (reachingStores (.ofBody overwritingBody flow) trimmed 4 0 .int .boolean :
        Query ⟨[]⟩ _).eval = .ok [3, 1] ∧
      ¬Relation.ReflTransGen (fun before after => after ∈ flow.successors before ∧
        (after ≠ 4 → ¬(Scene.ofBody overwritingBody flow).StoresTo 0 after)) 1 4 := by
  rcases exists_trimming observe_overwriting with
    ⟨branches, completed, flow, frames, liveness, trimmed, trimming, seen⟩
  obtain ⟨isBefore, answered⟩ := Prod.mk.inj seen
  refine ⟨branches, completed, flow, frames, liveness, trimmed, trimming, answered,
    fun path => ?_⟩
  obtain ⟨ranges, coherent⟩ := trimming.coherent
  rcases path.cases_tail with impossible | ⟨middle, path, leads, _⟩
  · cases impossible
  · have isMiddle :=
      (coherent.mem_predecessors_iff trimming.closed (by decide)).mpr (.inl leads)
    rw [isBefore] at isMiddle
    cases List.mem_singleton.mp isMiddle
    rcases path.cases_tail with impossible | ⟨_, _, _, noStore⟩
    · cases impossible
    · exact noStore (by decide) rfl

end Query

end LocalTable
