import LocalTable.Proofs.Refine
import LocalTable.Refine.Rules

/-!
# Passes over the instructions

The rules for single instructions refine operands and consumers, the stores behind an
increment, and pairs of operands that may be booleans.  An invariant that all of this
keeps is kept by the rules, by the passes, and by the whole refinement.
-/

namespace LocalTable

/-- The instruction suggests that both its operands are booleans. -/
def Instruction.SuggestsBooleans : Instruction → Prop
  | .logicInt _ => True
  | .branchInt comparison _ => comparison.isOrdering = false
  | _ => False

/-- There is an instruction that suggests booleans. -/
def Scene.SuggestsBooleans (scene : Scene) (position : Nat) : Prop :=
  ∃ instruction, scene.instructions[position]? = some instruction ∧
    instruction.SuggestsBooleans

namespace Refine

variable {hierarchy : Hierarchy} {scene : Scene} {E : Error → Prop}
  {I : Refinement → Prop} {position above distance : Nat} {instruction : Instruction}

/-- Whatever the rules do at a position keeps the invariant.  Operands that may be
booleans are refined in pairs. -/
structure Sustains (hierarchy : Hierarchy) (scene : Scene) (E : Error → Prop)
    (I : Refinement → Prop) : Prop where
  before {position : Nat} (isFree : ¬scene.SuggestsBooleans position) (above : Nat)
    (expected : ValueType) :
    Maintains E I (before scene position above expected : Refine hierarchy _) fun _ =>
      True
  after (position : Nat) (expected : ValueType) :
    Maintains E I (after scene position expected : Refine hierarchy _) fun _ => True
  increment (position slot : Nat) (amount : Int) :
    Maintains E I (applyRestriction scene position (.increment slot amount) :
      Refine hierarchy _)
      fun _ => True
  tryBooleans {position : Nat} (suggests : scene.SuggestsBooleans position) :
    Maintains E I (tryBooleans scene position : Refine hierarchy _) fun _ => True

/-! ## Rules -/

theorem cellType?_maintains :
    Maintains E I (cellType? position distance : Refine hierarchy _) fun _ => True :=
  .bind .get fun _ _ => .pure trivial

section Rules

variable (sustains : Sustains hierarchy scene E I)
  (isFree : ¬scene.SuggestsBooleans position)

include sustains isFree

theorem arguments_maintains (parameters : List FieldType) (above : Nat) :
    Maintains E I (arguments scene position above parameters : Refine hierarchy _)
      fun _ => True := by
  induction parameters generalizing above with
  | nil => exact .pure trivial
  | cons parameter rest ih => exact .bind (sustains.before isFree _ _) fun _ _ => ih _

theorem call_maintains {descriptor : MethodDescriptor} {receiver : Option RefType} :
    Maintains E I (call scene position descriptor receiver : Refine hierarchy _)
      fun _ => True := by
  unfold call
  refine .bind (arguments_maintains sustains isFree _ 0) fun above _ => ?_
  cases receiver with
  | some owner =>
      refine .bind (sustains.before isFree _ _) fun _ _ => ?_
      cases descriptor.result with
      | some type => exact sustains.after _ _
      | none => exact .pure trivial
  | none =>
      cases descriptor.result with
      | some type => exact sustains.after _ _
      | none => exact .pure trivial

theorem applyContext_maintains :
    Maintains E I (applyContext scene position instruction : Refine hierarchy _)
      fun _ => True := by
  have component {distance : Nat} :
      Maintains E I (componentAt? position distance : Refine hierarchy _) fun _ => True :=
    .bind cellType?_maintains fun _ _ => .pure trivial
  have operand (above : Nat) (expected : ValueType) :=
    sustains.before isFree above expected
  unfold applyContext
  split
  case h_1 =>
    refine .bind component fun found _ => ?_
    split
    next => exact sustains.after _ _
    next => exact .pure trivial
  case h_2 =>
    refine .bind component fun found _ => ?_
    split
    next => exact .bind (operand _ _) fun _ _ => .pure trivial
    next => exact .pure trivial
  case h_3 => exact sustains.after _ _
  case h_4 => exact .bind (operand _ _) fun _ _ => sustains.after _ _
  case h_5 => exact .bind (operand _ _) fun _ _ => sustains.after _ _
  case h_6 => exact sustains.after _ _
  case h_7 =>
    refine .bind (operand _ _) fun _ _ => ?_
    exact .bind (operand _ _) fun _ _ => .pure trivial
  case h_8 => exact .bind (operand _ _) fun _ _ => .pure trivial
  case h_9 => exact call_maintains sustains isFree
  case h_10 => exact call_maintains sustains isFree
  case h_11 =>
    split
    next => exact .bind (operand _ _) fun _ _ => .pure trivial
    next => exact .pure trivial
  case h_12 => exact .pure trivial

theorem arithmeticBefore_maintains :
    Maintains E I (arithmeticBefore scene position above : Refine hierarchy _)
      fun _ => True := by
  unfold arithmeticBefore
  refine .bind cellType?_maintains fun found _ => ?_
  split
  next => exact .bind (sustains.before isFree _ _) fun _ _ => .pure trivial
  next => exact .pure trivial

theorem sameBefore_maintains :
    Maintains E I (sameBefore scene position above : Refine hierarchy _) fun _ =>
      True := by
  unfold sameBefore
  refine .bind cellType?_maintains fun found _ => ?_
  split
  next => exact .bind (sustains.before isFree _ _) fun _ _ => .pure trivial
  next => exact .pure trivial

theorem applyRestriction_maintains :
    Maintains E I (applyRestriction scene position instruction : Refine hierarchy _)
      fun _ => True := by
  have operand (above : Nat) (expected : ValueType) :=
    sustains.before isFree above expected
  have arithmetic (above : Nat) :
      Maintains E I (arithmeticBefore scene position above : Refine hierarchy _)
          fun _ => True :=
    arithmeticBefore_maintains sustains isFree
  have same (above : Nat) :
      Maintains E I (sameBefore scene position above : Refine hierarchy _)
          fun _ => True :=
    sameBefore_maintains sustains isFree
  unfold applyRestriction
  split
  case h_1 =>
    split
    next => exact .pure trivial
    next => exact sustains.after _ _
  case h_2 => exact sustains.after _ _
  case h_3 => exact sustains.after _ _
  case h_4 =>
    refine .bind cellType?_maintains fun right _ => ?_
    refine .bind cellType?_maintains fun left _ => ?_
    split
    next =>
      refine .bind (operand _ _) fun _ _ => ?_
      refine .bind (operand _ _) fun _ _ => ?_
      exact sustains.after _ _
    next => exact .pure trivial
  case h_5 =>
    refine .bind (arithmetic 0) fun _ _ => ?_
    refine .bind cellType?_maintains fun found _ => ?_
    split
    next => exact .bind (operand _ _) fun _ _ => sustains.after _ _
    next => exact .pure trivial
  case h_6 => exact arithmetic 0
  case h_7 slot amount => exact sustains.increment position slot amount
  case h_8 =>
    split
    next => exact arithmetic 0
    next => exact .pure trivial
  case h_9 => exact same 0
  case h_10 =>
    split
    next => exact .bind (arithmetic 0) fun _ _ => arithmetic 1
    next => exact .pure trivial
  case h_11 => exact .bind (same 0) fun _ _ => same 1
  case h_12 => exact .pure trivial

end Rules

theorem applyLogic_maintains (sustains : Sustains hierarchy scene E I)
    (found : scene.instructions[position]? = some instruction) :
    Maintains E I (applyLogic scene position instruction : Refine hierarchy _) fun _ =>
      True := by
  have attempt (suggests : instruction.SuggestsBooleans) :=
    sustains.tryBooleans ⟨instruction, found, suggests⟩
  unfold applyLogic
  split
  case h_1 =>
    refine .bind (attempt trivial) fun done _ => ?_
    split
    next => exact sustains.after _ _
    next => exact sustains.after _ _
  case h_2 comparison target =>
    split
    next => exact .pure trivial
    next =>
      refine .bind (sustains.before ?_ _ _) fun _ _ => .pure trivial
      rintro ⟨_, alsoFound, suggests⟩
      cases found.symm.trans alsoFound
      exact suggests
  case h_3 comparison target =>
    split
    next => exact .pure trivial
    next isEquality =>
      exact .bind (attempt (Bool.eq_false_iff.mpr isEquality)) fun _ _ => .pure trivial
  case h_4 => exact .pure trivial

theorem applyContext_of_suggestsBooleans (suggests : instruction.SuggestsBooleans) :
    (applyContext scene position instruction : Refine hierarchy Unit) = pure () := by
  cases instruction <;> first | rfl | exact suggests.elim

theorem applyRestriction_of_suggestsBooleans (suggests : instruction.SuggestsBooleans) :
    (applyRestriction scene position instruction : Refine hierarchy Unit) = pure () := by
  cases instruction with
  | logicInt => rfl
  | branchInt comparison target =>
      have isEquality : comparison.isOrdering = false := suggests
      rw [applyRestriction, isEquality]
      rfl
  | _ => exact suggests.elim

/-! ## Passes -/

theorem Maintains.forM_zipIdx {instructions : Array Instruction}
    {step : Instruction × Nat → Refine hierarchy Unit}
    (each : ∀ position instruction, instructions[position]? = some instruction →
      Maintains E I (step (instruction, position)) fun _ => True) :
    Maintains E I (instructions.toList.zipIdx.forM step) fun _ => True := by
  refine .forM fun (instruction, position) member => each position instruction ?_
  have found := List.mk_mem_zipIdx_iff_getElem?.mp member
  rwa [Array.getElem?_toList] at found

theorem pass_maintains {rule : Nat → Instruction → Refine hierarchy Unit}
    (each : ∀ position instruction, scene.instructions[position]? = some instruction →
      Maintains E I (rule position instruction) fun _ => True) :
    Maintains E I (pass scene rule) fun _ => True := by
  refine .forM_zipIdx fun position instruction found => ?_
  refine .bind .get fun refinement _ => ?_
  split
  next => exact each position instruction found
  next => exact .pure trivial

/-- All passes together keep the invariant. -/
theorem passes_maintains (sustains : Sustains hierarchy scene E I) :
    Maintains E I (passes scene : Refine hierarchy _) fun _ => True := by
  -- The first two passes leave the pairs of operands that may be booleans alone.
  have aside {rule : Nat → Instruction → Refine hierarchy Unit}
      (idle : ∀ position instruction, instruction.SuggestsBooleans →
        rule position instruction = pure ())
      (elsewhere : ∀ position instruction, ¬scene.SuggestsBooleans position →
        Maintains E I (rule position instruction) fun _ => True) :
      Maintains E I (pass scene rule) fun _ => True := by
    refine pass_maintains fun position instruction found => ?_
    by_cases suggests : instruction.SuggestsBooleans
    · rw [idle position instruction suggests]
      exact .pure trivial
    · refine elsewhere position instruction ?_
      rintro ⟨_, alsoFound, alsoSuggests⟩
      cases found.symm.trans alsoFound
      exact suggests alsoSuggests
  unfold passes
  refine .bind (aside (fun _ _ => applyContext_of_suggestsBooleans)
    fun _ _ => applyContext_maintains sustains) fun _ _ => ?_
  refine .bind (aside (fun _ _ => applyRestriction_of_suggestsBooleans)
    fun _ _ => applyRestriction_maintains sustains) fun _ _ => ?_
  exact pass_maintains fun _ _ found => applyLogic_maintains sustains found

theorem settleStores_guarantees {refinement : Refinement}
    (stores : ∀ position instruction, scene.instructions[position]? = some instruction →
      Maintains E I (refineStore scene position instruction : Refine hierarchy _)
        fun _ => True)
    (holds : I refinement) :
    (settleStores scene refinement : Query hierarchy _).Guarantees E I := by
  induction refinement using settleStores.induct scene with
  | case1 refinement ih =>
      unfold settleStores
      have sweeps : Maintains E I (sweepStores scene : Refine hierarchy _)
          fun _ => True :=
        .forM_zipIdx stores
      refine .bind (sweeps refinement holds) ?_
      intro (_, swept) ⟨sweptHolds, _⟩
      dsimp only
      split
      next fewer => exact ih swept fewer sweptHolds
      next => exact .pure sweptHolds

end Refine

/-- A refinement keeps one invariant in its passes, and another one that follows from it
when stores are settled. -/
theorem Query.refinement_guarantees {hierarchy : Hierarchy} {body : Body} {flow : Flow}
    {frames : Frames} {E : Error → Prop} {I J : Refinement → Prop}
    (sustains : Refine.Sustains hierarchy (Scene.ofBody body flow) E I)
    (weaker : ∀ refinement, I refinement → J refinement)
    (stores : ∀ position instruction, body.instructions[position]? = some instruction →
      Refine.Maintains E J (Refine.refineStore (Scene.ofBody body flow)
        position instruction :
        Refine hierarchy _) fun _ => True)
    (starts : I (.start frames body.code.maxLocals)) :
    (refinement body flow frames : Query hierarchy _).Guarantees E J := by
  refine .bind (Refine.passes_maintains sustains _ starts) ?_
  intro (_, passed) ⟨passedHolds, _⟩
  exact Refine.settleStores_guarantees stores (weaker passed passedHolds)

end LocalTable
