import LocalTable.Proofs.Frames

/-!
# How the computation of frames fails

A step of the computation breaks down in two cases only: an instruction loads a wide value
from the last slot, or control leads behind the last instruction.  All other failures are
ordinary ones.  Which of them can happen is settled once, for any condition on failures,
and then used for the conditions that matter.
-/

namespace LocalTable

namespace Query

variable {hierarchy : Hierarchy} {E : Error → Prop}
  (ordinary : ∀ error : Error, error.isBreakdown = false → E error)

include ordinary

/-! ## Joins -/

theorem failsOnly_mergeTypes (seeded : Bool) (left right : Option ValueType) :
    (mergeTypes seeded left right : Query hierarchy _).FailsOnly E := by
  unfold mergeTypes
  split
  · split
    · exact .pure _
    · split
      · exact .pure _
      · exact failsOnly_join (fun _ => ordinary _ rfl) _ _
  · exact .pure none

theorem failsOnly_mergeLocals (seeded : Bool) (lefts rights : List (Option ValueType)) :
    (mergeLocals seeded lefts rights : Query hierarchy _).FailsOnly E := by
  induction lefts generalizing rights with
  | nil => exact .pure []
  | cons left lefts ih =>
      cases rights with
      | nil => exact .pure (left :: lefts)
      | cons right rights =>
          refine .bind (failsOnly_mergeTypes ordinary _ _ _) fun _ _ => ?_
          exact .bind (ih rights) fun _ _ => .pure _

theorem failsOnly_mergeCells (seeded : Bool) (lefts rights : List Cell) :
    (mergeCells seeded lefts rights : Query hierarchy _).FailsOnly E := by
  induction lefts generalizing rights with
  | nil => exact .pure []
  | cons left lefts ih =>
      cases rights with
      | nil => exact .pure (left :: lefts)
      | cons right rights =>
          refine .bind (failsOnly_mergeTypes ordinary _ _ _) fun _ _ => ?_
          exact .bind (ih rights) fun _ _ => .pure _

theorem failsOnly_merge (left right : Frame) (position : Nat) :
    (merge left right position : Query hierarchy _).FailsOnly E := by
  unfold merge
  split
  · exact .fail (ordinary _ rfl)
  · refine .bind (failsOnly_mergeLocals ordinary _ _ _) fun _ _ => ?_
    exact .bind (failsOnly_mergeCells ordinary _ _ _) fun _ _ => .pure _

/-! ## Deliveries -/

/-- A delivery breaks down behind the code, and otherwise leaves the flow and the number
of frames as they are. -/
theorem guarantees_deliver {frame : Frame} {propagation : Propagation} {position : Nat}
    (beyond : propagation.frames.size ≤ position → E (.beyondCode position)) :
    (deliver frame propagation position : Query hierarchy _).Guarantees E fun next =>
      next.flow = propagation.flow ∧ next.frames.size = propagation.frames.size := by
  constructor
  · intro next answered
    have delivers := deliver_eq_ok answered
    exact ⟨delivers.flow_eq, delivers.size_eq⟩
  · unfold deliver
    split
    · split
      · exact .bind (failsOnly_merge ordinary _ _ _) fun _ _ => .pure _
      · exact .pure _
    · next isOutside => exact .fail (beyond (Nat.le_of_not_lt isOutside))

theorem failsOnly_handlerFrame (before : Frame) (position : Nat) (caught : BinaryName) :
    (handlerFrame before position caught : Query hierarchy Frame).FailsOnly E := by
  unfold handlerFrame
  split
  next => exact .pure _
  next fault isFault =>
    refine .fail (ordinary _ ?_)
    cases fault with
    | noUpperSlot => exact absurd isFault (Frame.push_ne_noUpperSlot nofun)
    | _ => rfl

theorem failsOnly_deliverToHandlers {before : Frame} {position : Nat}
    {propagation : Propagation}
    (beyond : ∀ range ∈ around propagation.flow position,
      propagation.frames.size ≤ range.handler → E (.beyondCode range.handler)) :
    (deliverToHandlers before position propagation : Query hierarchy _).FailsOnly E := by
  refine (Guarantees.foldlM (P := fun reached =>
    reached.frames.size = propagation.frames.size) rfl ?_).failsOnly
  intro range isAround reached size_eq
  refine .bind ⟨.trivial, failsOnly_handlerFrame ordinary _ _ _⟩ fun frame _ => ?_
  refine (guarantees_deliver ordinary ?_).mono fun next kept => kept.2.trans size_eq
  rw [size_eq]
  exact beyond range isAround

/-! ## Instructions -/

theorem failsOnly_execute {frame : Frame} {position : Nat} {instruction : Instruction}
    (last : instruction.loaded? = some Frame.lastSlot →
      E (.frame position .noUpperSlot)) :
    (execute frame position instruction : Query hierarchy Frame).FailsOnly E := by
  intro error failed
  rw [eval_execute, Frame.execute] at failed
  split at failed
  next =>
    cases failed
    exact ordinary _ rfl
  next =>
    split at failed
    next => cases failed
    next fault isFault =>
      cases failed
      cases fault with
      | noUpperSlot =>
          exact last ((Frame.gives_effect frame instruction).of_error isFault)
      | _ => exact ordinary _ rfl

theorem failsOnly_catching (exception : BinaryName) (position : Nat)
    (ranges : List ProtectedRange) :
    (catching exception position ranges : Query hierarchy (List Nat)).FailsOnly E := by
  induction ranges with
  | nil => exact .pure []
  | cons range rest ih =>
      unfold catching
      split
      · refine .bind (failsOnly_isSubclass (fun _ => ordinary _ rfl) _ _)
          fun isCaught _ => ?_
        cases isCaught with
        | true => exact .bind ih fun _ _ => .pure _
        | false => exact ih
      · exact ih

theorem failsOnly_addThrow (flow : Flow) (position : Nat) (thrown : Option ValueType) :
    (addThrow flow position thrown : Query hierarchy Flow).FailsOnly E := by
  refine .bind (failsOnly_catching ordinary _ _ _) fun handlers _ => ?_
  cases handlers with
  | nil => exact .pure _
  | cons => exact .pure _

/-! ## Steps -/

variable {instructions : Array Instruction} {propagation : Propagation}

theorem failsOnly_carry {position : Nat} {instruction : Instruction} {before : Frame}
    (found : instructions[position]? = some instruction)
    (last : instruction.loaded? = some Frame.lastSlot → E (.frame position .noUpperSlot))
    (beyond : ∀ target, Leads propagation.flow position instruction target →
      propagation.frames.size ≤ target → E (.beyondCode target)) :
    (carry propagation position instruction before : Query hierarchy _).FailsOnly E := by
  have received {frame : Frame} {flow : Flow}
      (extended : Extended instructions propagation.flow flow) :
      ((receivers flow position instruction).foldlM (deliver frame)
        { propagation with flow := flow } : Query hierarchy _).Guarantees E fun reached =>
          reached.flow = flow ∧ reached.frames.size = propagation.frames.size := by
    refine .foldlM ⟨rfl, rfl⟩ ?_
    rintro target isReceiver reached ⟨flow_eq, size_eq⟩
    refine (guarantees_deliver ordinary ?_).mono fun next kept =>
      ⟨kept.1.trans flow_eq, kept.2.trans size_eq⟩
    rw [size_eq]
    exact beyond target ((Leads.of_extended extended found).mp (.receiver isReceiver))
  unfold carry
  split
  next => exact (received (.refl propagation.flow)).failsOnly
  next isReal =>
    have onward (after : Frame) {flow : Flow}
        (extended : Extended instructions propagation.flow flow) : (do
        let propagation ← (receivers flow position instruction).foldlM (deliver after)
          { propagation with flow := flow }
        deliverToHandlers before position propagation :
            Query hierarchy _).FailsOnly E := by
      refine (received extended).failsOnly.bind fun reached isReached => ?_
      obtain ⟨flow_eq, size_eq⟩ := (received extended).ensures reached isReached
      refine failsOnly_deliverToHandlers ordinary fun range isAround => ?_
      rw [flow_eq] at isAround
      rw [size_eq]
      exact beyond range.handler ((Leads.of_extended extended found).mp
        (.handler (by simpa using isReal) isAround))
    refine .bind (failsOnly_execute ordinary last) fun after _ => ?_
    dsimp only
    split
    next isThrow =>
      refine .bind (failsOnly_addThrow ordinary _ _ _) fun flow added => ?_
      exact onward after (Throws.extended found (.throws isThrow added))
    next => exact onward after (.refl propagation.flow)

/-- A step breaks down only if an instruction loads from the last slot, or control leads
behind the code. -/
theorem failsOnly_propagateStep
    (last : ∀ position instruction, instructions[position]? = some instruction →
      instruction.loaded? = some Frame.lastSlot → E (.frame position .noUpperSlot))
    (beyond : ∀ position instruction target, instructions[position]? = some instruction →
      Leads propagation.flow position instruction target →
      propagation.frames.size ≤ target → E (.beyondCode target)) :
    (propagateStep instructions propagation : Query hierarchy _).FailsOnly E := by
  unfold propagateStep
  split
  next => exact .pure _
  next position rest pending_eq =>
    dsimp only
    split
    next instruction before found there =>
      refine .bind (failsOnly_carry ordinary found (last position instruction found) ?_)
        fun _ _ => .pure _
      exact fun target => beyond position instruction target found
    next => exact .pure _

/-! ## Given frames -/

theorem failsOnly_seeds (body : Body) :
    (ofExcept body.seeds : Query hierarchy Frames).FailsOnly E := by
  intro error failed
  rw [eval_ofExcept] at failed
  refine ordinary error (Bool.eq_false_iff.mpr fun breaksDown => ?_)
  refine bind_ne_error ?_ (fun entry => bind_ne_error (foldlM_ne_error ?_) nofun) failed
  · unfold Body.entryFrame
    split
    next => exact nofun
    next fault isFault =>
      rintro ⟨⟩
      cases fault with
      | noUpperSlot => exact Frame.entry_ne_noUpperSlot isFault
      | _ => cases breaksDown
  · rintro seeding ⟨instruction, position⟩
    dsimp only [Body.seedAt]
    split
    · split
      · exact nofun
      · rintro ⟨⟩
        cases breaksDown
    · exact nofun

end Query

end LocalTable
