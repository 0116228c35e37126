import Mathlib.Tactic.Ring
import LocalTable.Proofs.Frames.Settling
import LocalTable.Proofs.Refine.Halves
import LocalTable.Proofs.Refine.Spreading
import LocalTable.Proofs.Trim.Losses

/-!
# Refining ends

A type that spreads through a method keeps no record of where it has been, and it may
change on the way.  But a local that gets another type than the expected one is passed
by from then on, and one that keeps the expected type is marked as refined, which
happens once.  A position that does neither of these takes up a pending type and sends
on nothing but the expected one, which every refined position ignores.

Walks visit a position once.  Stores are swept only as long as a sweep refines one of
them, and no sweep makes a refined store an open one.  Superclasses come to an end
because no class is among its own.
-/

namespace LocalTable

variable {hierarchy : Hierarchy}

/-! ## Out-degrees -/

namespace Flow

variable {flow : Flow} {limit size : Nat} {ranges : List ProtectedRange}

theorem successors_of_size_le {position : Nat} (outside : flow.size ≤ position) :
    flow.successors position = [] := by
  have noTarget : flow.targetsOf position = [] := by
    rw [targetsOf_eq, Array.getElem?_eq_none outside, Option.getD_none]
  simp [successors, noTarget, Nat.le_succ_of_le outside]

/-- The number of positions that control can go to from one position. -/
def degree (flow : Flow) : Nat :=
  if flow.size = 0 then 0 else flow.size + 1

theorem Coherent.length_successors_le (coherent : flow.Coherent limit size ranges)
    (position : Nat) : (flow.successors position).length ≤ flow.degree := by
  by_cases inBounds : position < flow.size
  · have hasPositions : flow.size ≠ 0 := Nat.ne_zero_of_lt inBounds
    rw [degree, if_neg hasPositions, successors]
    split
    · split <;> simp
    · exact coherent.size_eq ▸ (coherent.sparse position).length_le
  · simp [successors_of_size_le (Nat.le_of_not_lt inBounds)]

end Flow

/-! ## Work that is left -/

namespace Query

variable {flow : Flow} {degree slot : Nat} {expected : ValueType}

/-- What a position can still do with a type that spreads: give up the expected type,
which sends another one on, and become refined, which sends the expected one on. -/
def share (degree slot : Nat) (expected : ValueType) (refinement : Refinement)
    (position : Nat) :
    Nat :=
  (if refinement.frames.localAt position slot =
    some expected then degree * (degree + 1) else 0) +
    if refinement.isRefined position slot then 0 else degree

/-- What a pending type can do: the expected type only goes away, any other one may be
sent on as the expected type. -/
def cost (degree : Nat) (expected type : ValueType) : Nat :=
  if type = expected then 1 else degree + 1

/-- A bound on the steps that a spreading type can still take. -/
def work (size degree slot : Nat) (expected : ValueType) (spreading : Spreading) : Nat :=
  ∑ position ∈ Finset.range size,
    share degree slot expected spreading.refinement position +
    (spreading.pending.map fun next => cost degree expected next.2).sum

/-- Where one summand changes, the sum changes by the difference. -/
theorem sum_range_of_changed {size changed : Nat} {before after : Nat → Nat}
    (same : ∀ other, other ≠ changed → after other = before other)
    (inBounds : changed < size) :
    ∑ position ∈ Finset.range size, after position + before changed =
      ∑ position ∈ Finset.range size, before position + after changed := by
  have member : changed ∈ Finset.range size := Finset.mem_range.mpr inBounds
  have others : ∑ position ∈ (Finset.range size).erase changed, after position =
      ∑ position ∈ (Finset.range size).erase changed, before position :=
    Finset.sum_congr rfl fun other isOther => same other (Finset.ne_of_mem_erase isOther)
  rw [← Finset.add_sum_erase _ after member,
    ← Finset.add_sum_erase _ before member, others]
  omega

/-- Sending a type on costs its price for each successor. -/
theorem sum_onward {position : Nat} {type : ValueType} {rest : List (Nat × ValueType)} :
    (((flow.successors position).map (·, type)).reverse ++ rest |>.map fun next =>
        cost degree expected next.2).sum =
      (flow.successors position).length * cost degree expected type +
        (rest.map fun next => cost degree expected next.2).sum := by
  simp [Function.comp_def]

theorem cost_pos (degree : Nat) (expected type : ValueType) :
    0 < cost degree expected type := by
  unfold cost
  split
  · exact Nat.one_pos
  · exact Nat.succ_pos degree

/-- A change at one position leaves less to do if the position pays for what it sends
on. -/
theorem work_lt_of_changed {refinement changed : Refinement} {position : Nat}
    {type sent : ValueType} {rest : List (Nat × ValueType)}
    (elsewhere : ∀ other, other ≠ position →
      share degree slot expected changed other =
        share degree slot expected refinement other)
    (pays : (flow.successors position).length * cost degree expected sent +
        share degree slot expected changed position <
      cost degree expected type + share degree slot expected refinement position) :
    work flow.size degree slot expected
        ⟨changed, ((flow.successors position).map (·, sent)).reverse ++ rest⟩ <
      work flow.size degree slot expected ⟨refinement, (position, type) :: rest⟩ := by
  simp only [work, sum_onward, List.map_cons, List.sum_cons]
  by_cases inBounds : position < flow.size
  · have moved := sum_range_of_changed elsewhere inBounds
    omega
  · have same : ∑ other ∈ Finset.range flow.size,
        share degree slot expected changed other =
        ∑ other ∈ Finset.range flow.size,
            share degree slot expected refinement other := by
      refine Finset.sum_congr rfl fun other member => elsewhere other ?_
      rintro rfl
      exact inBounds (Finset.mem_range.mp member)
    have costs := cost_pos degree expected type
    rw [Flow.successors_of_size_le (Nat.le_of_not_lt inBounds), List.length_nil,
      Nat.zero_mul, same]
    omega

/-- Every step leaves less to do. -/
theorem work_lt_of_spreads {before after : Spreading}
    (few : ∀ position, (flow.successors position).length ≤ degree)
    (inBounds : slot < before.refinement.refined.size)
    (spreads : Spreads hierarchy flow slot expected before after) :
    work flow.size degree slot expected after <
      work flow.size degree slot expected before := by
  cases spreads with
  | @passes refinement position type rest idle =>
      have costs := cost_pos degree expected type
      simp only [work, List.map_cons, List.sum_cons]
      omega
  | @refines refinement changed position type rest held isOpen retyped =>
      have localAt := Refinement.localAt_retype retyped held
      have isRefined (other : Nat) : changed.isRefined other slot =
          (refinement.isRefined other slot || decide (other = position)) := by
        rw [Refinement.isRefined_retype retyped held, Refinement.isRefined_markRefined]
        simp [inBounds]
      apply work_lt_of_changed
      · intro other differs
        simp [share, isRefined, localAt, differs]
      · have before : share degree slot expected refinement position =
            degree * (degree + 1) + degree := by
          simp [share, held, isOpen]
        have after : share degree slot expected changed position =
            if type = expected then degree * (degree + 1) else 0 := by
          simp [share, localAt, isRefined]
        have sends := few position
        have sendsOther := Nat.mul_le_mul_right (degree + 1) sends
        rw [before, after]
        unfold cost
        split <;> omega
  | @widens refinement changed position type joined rest held isRefined differs
      joins retyped =>
      have localAt := Refinement.localAt_retype retyped held
      apply work_lt_of_changed
      · intro other differs
        simp [share, Refinement.isRefined_retype retyped held, localAt, differs]
      · have before : share degree slot expected refinement position =
            degree * (degree + 1) := by
          simp [share, held, isRefined]
        have after : share degree slot expected changed position =
            if joined.getD expected = expected then degree * (degree + 1) else 0 := by
          simp [share, localAt, Refinement.isRefined_retype retyped held, isRefined]
        have sends := few position
        have sendsOther := Nat.mul_le_mul_right (degree + 1) sends
        rw [before, after]
        simp only [cost, differs, if_false]
        split <;> omega

/-- A type that spreads from a position ends within the bound. -/
theorem work_lt_spreadBound (flow : Flow) (refinement : Refinement) (position slot : Nat)
    (expected type : ValueType) :
    work flow.size flow.degree slot expected ⟨refinement, [(position, type)]⟩ <
      spreadBound flow := by
  have shares : ∀ position ∈ Finset.range flow.size,
      share flow.degree slot expected refinement position ≤
        flow.degree * (flow.degree + 1) + flow.degree := by
    intro position _
    unfold share
    split <;> split <;> omega
  have all := Finset.sum_le_card_nsmul _ _ _ shares
  have costs : cost flow.degree expected type ≤ flow.degree + 1 := by
    unfold cost
    split <;> omega
  rw [Finset.card_range, smul_eq_mul] at all
  simp only [work, List.map_cons, List.map_nil, List.sum_cons, List.sum_nil, spreadBound]
  by_cases isEmpty : flow.size = 0
  · simp only [Flow.degree, isEmpty, if_true] at all costs ⊢
    omega
  · simp only [Flow.degree, isEmpty, if_false] at all costs ⊢
    obtain ⟨size, size_eq⟩ := Nat.exists_eq_add_one_of_ne_zero isEmpty
    rw [size_eq] at all costs ⊢
    have bound : 2 * (size + 1 + 1) * (size + 1 + 1) * (size + 1 + 1) =
        (size + 1) * ((size + 1 + 1) * (size + 1 + 1 + 1) + (size + 1 + 1)) +
          (size + 1 + 1 + 1) + (size ^ 3 + 5 * size ^ 2 + 9 * size + 5) := by
      ring
    omega

section Failures

variable {E : Error → Prop}
  (ordinary : ∀ error : Error, error.isBreakdown = false → E error)

include ordinary

theorem failsOnly_retype (refinement : Refinement) (position slot : Nat)
    (before after : ValueType) :
    (ofExcept (refinement.retype position slot before after) :
      Query hierarchy Refinement).FailsOnly E := by
  intro error failed
  rw [eval_ofExcept] at failed
  unfold Refinement.retype at failed
  split at failed
  next => cases failed
  next =>
    split at failed
    next => cases failed
    next fault isFault =>
      cases failed
      refine ordinary _ ?_
      cases fault with
      | noUpperSlot => exact absurd isFault Frame.setLocal_ne_noUpperSlot
      | _ => rfl

theorem failsOnly_spreadStep (spreading : Spreading) :
    (spreadStep flow slot expected spreading : Query hierarchy _).FailsOnly E := by
  have accepts : Refine.Accepts hierarchy E (fun _ => True) slot expected fun _ => True :=
    { same := trivial
      join := fun _ _ => trivial
      mark := fun _ _ => trivial
      retype := fun _ _ _ => ⟨.trivial, failsOnly_retype ordinary _ _ _ _ _⟩ }
  exact (spreadStep_guarantees (fun _ => ordinary _ rfl) accepts trivial
    fun _ _ => trivial).failsOnly

end Failures

theorem decides_spread {limit size : Nat} {ranges : List ProtectedRange}
    {refinement : Refinement} (coherent : flow.Coherent limit size ranges)
    (inBounds : slot < refinement.refined.size) (position : Nat) (type : ValueType) :
    (iterate (spreadStep flow slot expected) 1 (spreadBound flow)
      ⟨refinement, [(position, type)]⟩ : Query hierarchy _).Decides := by
  have lowers : Lowers (spreadStep flow slot expected : _ → Query hierarchy _)
      (fun spreading => slot < spreading.refinement.refined.size)
      (work flow.size flow.degree slot expected) := by
    intro before after beforeInBounds follows
    have spreads := spreads_of_follows follows
    exact ⟨Nat.lt_of_lt_of_eq beforeInBounds spreads.size_refined.symm,
      work_lt_of_spreads coherent.length_successors_le beforeInBounds spreads⟩
  have bound := work_lt_spreadBound flow refinement position slot expected type
  exact lowers.decides_iterate
    (fun spreading _ => (failsOnly_spreadStep (fun _ => Error.ne_unsettled)
      spreading).decides)
    inBounds (by omega)

end Query

/-! ## Sweeps -/

namespace Refinement

variable {refinement : Refinement}

/-- What is refined stays refined. -/
def Marks (marked : Nat → Nat → Prop) (refinement : Refinement) : Prop :=
  ∀ position slot, marked position slot → refinement.isRefined position slot = true

theorem Marks.markRefined {marked : Nat → Nat → Prop} (marks : refinement.Marks marked)
    (position slot : Nat) : (refinement.markRefined position slot).Marks marked := by
  intro other otherSlot isMarked
  rw [isRefined_markRefined, marks other otherSlot isMarked, Bool.true_or]

theorem Marks.indifferent (hierarchy : Hierarchy) (scene : Scene)
    (marked : Nat → Nat → Prop) :
    Refine.Indifferent hierarchy scene (fun _ => True) (Marks marked) where
  missing _ := trivial
  retype position slot expected type := by
    refine Refine.retypeFrom_maintains (R := fun _ => True) ⟨fun _ => trivial, trivial⟩
      ⟨trivial, fun _ _ => trivial, fun position marks =>
        marks.markRefined position slot, ?_⟩
      trivial
    intro refinement position type marks held _
    refine ⟨fun changed retyped other otherSlot isMarked => ?_, fun _ _ => trivial⟩
    rw [Query.eval_ofExcept] at retyped
    rw [isRefined_retype retyped held]
    exact marks other otherSlot isMarked
  retypeCell position distance type marks := by
    unfold Refinement.retypeCell
    split
    next => exact marks
    next => exact marks

/-- A sweep makes no refined store an open one. -/
theorem openStores_le_of_sweep {scene : Scene} {swept : Refinement}
    (ran : ((Refine.sweepStores scene : Refine hierarchy _).run refinement).eval =
      .ok ((), swept)) :
    swept.openStores scene.instructions ≤ refinement.openStores scene.instructions := by
  have indifferent := Marks.indifferent hierarchy scene
    fun position slot => refinement.isRefined position slot = true
  have sweeps : Refine.Maintains _ _ (Refine.sweepStores scene : Refine hierarchy _)
      fun _ => True :=
    .forM_zipIdx fun position instruction _ =>
      indifferent.refineStore position instruction
  have marks := ((sweeps refinement fun _ _ => id).ensures _ ran).1
  apply List.countP_mono_left
  rintro ⟨instruction, position⟩ _ isOpen
  cases instruction with
  | store kind slot =>
      cases kind with
      | int =>
          have notRefined : swept.isRefined (position + 1) slot = false := by
            simpa using isOpen
          have wasOpen : refinement.isRefined (position + 1) slot = false := by
            rw [Bool.eq_false_iff]
            intro wasRefined
            cases notRefined.symm.trans (marks _ _ wasRefined)
          simpa using wasOpen
      | _ => cases isOpen
  | _ => cases isOpen

end Refinement

namespace Refine

/-- Sweeping the stores until a sweep refines none of them, but giving up after a number
of sweeps. -/
def settleWithin (scene : Scene) : (sweeps : Nat) → Refinement →
    Query hierarchy (Option Refinement)
  | 0, _ => return none
  | sweeps + 1, refinement => do
      let ((), swept) ← (sweepStores scene).run refinement
      if swept.openStores scene.instructions =
        refinement.openStores scene.instructions then
        return some swept
      else
        settleWithin scene sweeps swept

/-- There are no more sweeps than open stores, and the last one. -/
theorem eval_settleWithin {scene : Scene} {sweeps : Nat} {refinement : Refinement}
    (enough : refinement.openStores scene.instructions < sweeps) :
    (settleWithin scene sweeps refinement : Query hierarchy _).eval =
      some <$> (settleStores scene refinement : Query hierarchy _).eval := by
  induction sweeps generalizing refinement with
  | zero => omega
  | succ sweeps ih =>
      rw [settleWithin, settleStores]
      change (StateT.run (sweepStores scene) refinement >>= _ : Query hierarchy _).eval =
        some <$> (StateT.run (sweepStores scene) refinement >>=
          _ : Query hierarchy _).eval
      rw [Query.eval_bind, Query.eval_bind]
      cases ran : ((sweepStores scene : Refine hierarchy _).run refinement).eval with
      | error error => rfl
      | ok outcome =>
          obtain ⟨⟨⟩, swept⟩ := outcome
          have notMore := Refinement.openStores_le_of_sweep ran
          change (if _ then _ else _ : Query hierarchy _).eval =
            some <$> (if _ then _ else _ : Query hierarchy _).eval
          by_cases same : swept.openStores scene.instructions =
              refinement.openStores scene.instructions
          · rw [if_pos same, if_neg (Nat.not_lt_of_le (Nat.le_of_eq same.symm))]
            rfl
          · have fewer := Nat.lt_of_le_of_ne notMore same
            rw [if_neg same, if_pos fewer]
            exact ih (by omega)

end Refine

/-! ## Superclasses -/

namespace Query

/-- The first superclass of a class that is a supertype of another one, as long as the
steps last. -/
def climbWithin (other : BinaryName) : (steps : Nat) → (current : BinaryName) →
    Query hierarchy (Option BinaryName)
  | 0, _ => return none
  | steps + 1, current =>
      demand current fun data _ =>
        match data.superclass with
        | none => return some .object
        | some superclass => do
            if ← isSubclass other superclass then
              return some superclass
            else
              climbWithin other steps superclass

/-- No class is among its own supertypes, so a chain of superclasses never comes back to
a class that it has passed. -/
theorem eval_climbWithin (acyclic : hierarchy.Acyclic) {other current : BinaryName}
    {seen : List BinaryName} {steps : Nat} (enough : hierarchy.unseen seen < steps)
    (below : ∀ name ∈ seen, Relation.ReflTransGen hierarchy.Extends name current) :
    (climbWithin other steps current : Query hierarchy _).eval =
      some <$> (climb other current seen : Query hierarchy _).eval := by
  induction steps generalizing current seen with
  | zero => omega
  | succ steps ih =>
      rw [climbWithin, climb]
      apply eval_demand_eq_map
      intro data found
      split
      next isLast =>
        split
        next => rfl
        next superclass isSuperclass => cases isLast.symm.trans isSuperclass
      next superclass isSuperclass =>
        split
        next isLast => cases isLast.symm.trans isSuperclass
        next _ alsoSuperclass =>
          cases isSuperclass.symm.trans alsoSuperclass
          have member : superclass ∈ data.supertypes := by
            simp [ClassData.supertypes, isSuperclass]
          have isAbove : hierarchy.Extends current superclass := ⟨data, found, member⟩
          have isNew : seen.contains superclass = false := by
            rw [Bool.eq_false_iff, ne_eq, List.contains_iff_mem]
            intro isSeen
            exact acyclic superclass (.tail' (below superclass isSeen) isAbove)
          change (isSubclass other superclass >>= _ : Query hierarchy _).eval =
            some <$> (isSubclass other superclass >>= _ : Query hierarchy _).eval
          rw [eval_bind, eval_bind]
          cases (isSubclass other superclass : Query hierarchy _).eval with
          | error error => rfl
          | ok covers =>
              cases covers with
              | true => rfl
              | false =>
                  have fewer := Hierarchy.unseen_append_lt
                    (Hierarchy.mem_mentioned found member)
                    (List.mem_singleton_self superclass) isNew
                  change (climbWithin other steps superclass : Query hierarchy _).eval =
                    some <$> (dite _ _ _ : Query hierarchy _).eval
                  rw [dif_neg (by simpa using isNew)]
                  apply ih (by omega)
                  intro name member
                  rcases List.mem_cons.mp member with rfl | isSeen
                  · exact .refl
                  · exact .tail (below name isSeen) isAbove

end Query

/-! ## Termination -/

namespace Query

variable {scene : Scene}

section Failures

variable {limit size : Nat} {ranges : List ProtectedRange} {E : Error → Prop}
  (ordinary : ∀ error : Error, error.isBreakdown = false → E error)

include ordinary

/-- However types spread, refining does not break down. -/
theorem indifferent_breakdown (coherent : scene.flow.Coherent limit size ranges) :
    Refine.Indifferent hierarchy scene E fun _ => True where
  missing _ := ordinary _ rfl
  retype position slot expected type := by
    unfold Refine.retypeFrom
    refine .bind .get fun refinement _ => ?_
    split
    next inBounds =>
      have spreads :
          (iterate (spreadStep scene.flow slot expected) 1 (spreadBound scene.flow)
          ⟨refinement, [(position, type)]⟩ : Query hierarchy _).FailsOnly
            fun error => error = .unsettled ∨ E error := by
        refine (Guarantees.iterate (P := fun _ => True) (Q := fun _ => True)
          (.inl rfl) trivial
          fun spreading _ => ⟨fun outcome _ => ?_,
            failsOnly_spreadStep ?_ spreading⟩).failsOnly
        · cases outcome <;> exact trivial
        · exact fun error isOrdinary => .inr (ordinary error isOrdinary)
      exact .bind (P := fun _ => True)
        (.ask
          ⟨.trivial, (decides_spread coherent inBounds position type).failsOnly spreads⟩)
        fun changed _ => .set trivial
    next => exact .pure trivial
  retypeCell _ _ _ _ := trivial

theorem failsOnly_refine {body : Body} {flow : Flow}
    (coherent : flow.Coherent limit size ranges) (frames : Frames) :
    (refine body flow frames : Query hierarchy _).FailsOnly E := by
  have indifferent : Refine.Indifferent hierarchy (.ofBody body flow) E fun _ => True :=
    indifferent_breakdown ordinary coherent
  have refines : (refinement body flow frames : Query hierarchy _).Guarantees E
      fun _ => True :=
    refinement_guarantees indifferent.sustains (fun _ => id)
      (fun position instruction _ => indifferent.refineStore position instruction) trivial
  exact refines.failsOnly.bind fun _ _ => .pure _

end Failures

/-- Refining ends.  Every type that spreads has nothing pending within a bound that
depends on the size of the method only, whatever the frames are like and whatever has
been refined.  The walks to stores, to loads, to consumers and to the origins of
booleans take at most as many visits as there are instructions, and the stores are swept
at most once more than that.  Joins come to the end of a chain of superclasses. -/
theorem refining_ends {body : Body} {branches completed flow : Flow}
    {computed trimmed : Frames} {liveness : Liveness} (acyclic : hierarchy.Acyclic)
    (trimming : Trimming hierarchy body branches completed flow computed
      liveness trimmed) :
    let size := body.instructions.size
    let scene := Scene.ofBody body flow
    (∀ frames, (refine body flow frames : Query hierarchy _).eval ≠ .error .unsettled) ∧
    (∀ refinement position slot expected type,
      ((Refine.retypeFrom scene position slot expected type : Refine hierarchy _).run
        refinement).eval ≠ .error .unsettled) ∧
    (∀ frames start slot type expected,
      Walk.runWithin size (visitForStore scene frames slot type expected) size
        [start] ∅ [] =
        some <$> (reachingStores scene frames start slot type expected :
          Query hierarchy _)) ∧
    (∀ frames position height expected,
      Walk.runWithin size (visitForLoad scene frames height expected) size
          (flow.predecessors position).reverse ∅ [] =
        some <$> (loadedStores scene frames position height expected :
          Query hierarchy _)) ∧
    (∀ position expected,
      Walk.runWithin size (Refine.visitForConsumer scene expected) size
          (flow.onward position).reverse ∅ () =
        some <$> (Refine.after scene position expected : Refine hierarchy _)) ∧
    (∀ frames pending, Walk.runWithin size (scene.visitForBoolean frames) size
      pending ∅ false =
      some <$> Walk.run size (scene.visitForBoolean frames) pending ∅ false) ∧
    (∀ refinement, (Refine.settleWithin scene (size + 1) refinement :
      Query hierarchy _).eval =
      some <$> (Refine.settleStores scene refinement : Query hierarchy _).eval) ∧
    ∀ left right, (climbWithin right (hierarchy.mentioned.length + 1) left :
        Query hierarchy _).eval =
      some <$> (climb right left [] : Query hierarchy _).eval := by
  obtain ⟨ranges, coherent⟩ := trimming.coherent
  have visits (size : Nat) : IndexSet.missingBelow ∅ size ≤ size := by
    simpa [IndexSet.missingBelow] using List.countP_le_length (l := List.range size)
  have settles : ∀ error : Error, error.isBreakdown = false → error ≠ .unsettled :=
    fun _ => Error.ne_unsettled
  refine ⟨fun frames => (failsOnly_refine settles coherent frames).decides.ne_unsettled,
    ?_, fun _ _ _ _ _ => Walk.runWithin_eq_run (visits _),
    fun _ _ _ _ => Walk.runWithin_eq_run (visits _), fun _ _ =>
      Walk.runWithin_eq_run (visits _),
    fun _ _ => Walk.runWithin_eq_run (visits _), fun refinement =>
      ?_, fun left right => ?_⟩
  · intro refinement position slot expected type
    have indifferent : Refine.Indifferent hierarchy (.ofBody body flow)
        (· ≠ .unsettled) _ :=
      indifferent_breakdown settles coherent
    have spreads := indifferent.retype position slot expected type refinement trivial
    exact spreads.failsOnly.decides.ne_unsettled
  · apply Refine.eval_settleWithin
    simpa [Refinement.openStores, Scene.ofBody] using
      Nat.lt_succ_of_le (List.countP_le_length (l := body.instructions.toList.zipIdx))
  · apply eval_climbWithin acyclic
    · exact Nat.lt_succ_of_le List.countP_le_length
    · intro name member
      cases member

/-- A method that clears a flag in a loop until it is set no more. -/
def clearingBody : Body :=
  .plain [] 1 1 #[.intConstant 1, .store .int 0, .label ⟨0⟩, .load .int 0,
    .branchZero .eq ⟨1⟩, .intConstant 0, .store .int 0, .goto ⟨0⟩,
      .label ⟨1⟩, .returnVoid]

theorem observe_clearing : (observe clearingBody (fun flow _ _ trimmed =>
      (flow.successors 7, (refine clearingBody flow trimmed :
        Query (.pair .throwable .object) _).eval.map (·.localAt 3 0))) :
      Query (.pair .throwable .object) _).eval = .ok ([2], .ok (some .boolean)) := by
  decide +kernel

/-- The flag becomes a boolean all around the loop, and then nothing is left to do. -/
theorem clearing_ends :
    ∃ branches completed flow frames liveness trimmed,
      (Hierarchy.pair .throwable .object).Acyclic ∧
      Trimming (.pair .throwable .object) clearingBody branches completed flow
        frames liveness trimmed ∧
      flow.successors 7 = [2] ∧
      (refine clearingBody flow trimmed : Query (.pair .throwable .object) _).eval ≠
        .error .unsettled ∧
      (Refine.settleWithin (.ofBody clearingBody flow) 11 (.start trimmed 1) :
          Query (.pair .throwable .object) _).eval =
        some <$> (Refine.settleStores (.ofBody clearingBody flow) (.start trimmed 1) :
          Query (.pair .throwable .object) _).eval := by
  rcases exists_trimming observe_clearing with
    ⟨branches, completed, flow, frames, liveness, trimmed, trimming, seen⟩
  have acyclic : (Hierarchy.pair .throwable .object).Acyclic :=
    Hierarchy.acyclic_pair (by decide)
  obtain ⟨settles, _, _, _, _, _, sweeps, _⟩ := refining_ends acyclic trimming
  exact ⟨branches, completed, flow, frames, liveness, trimmed, acyclic, trimming,
    (Prod.mk.inj seen).1, settles trimmed, sweeps _⟩

end Query

end LocalTable
