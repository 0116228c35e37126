import LocalTable.Flow
import LocalTable.Proofs.Code
import LocalTable.Proofs.IndexSet
import LocalTable.Proofs.Query

/-!
# Edges of flows

What each way of adding edges does to the entries, the exits and the edges of a
flow.
-/

namespace LocalTable

/-! ## Instructions -/

namespace Instruction

variable {instruction : Instruction}

theorem exists_jumpTargets_eq (isConditional : instruction.isConditionalJump = true) :
    ∃ label, instruction.jumpTargets = [label] := by
  cases instruction <;> first | exact ⟨_, rfl⟩ | cases isConditional

theorem exists_jumpTarget (isConditional : instruction.isConditionalJump = true) :
    ∃ label, label ∈ instruction.jumpTargets := by
  obtain ⟨label, isOnly⟩ := exists_jumpTargets_eq isConditional
  exact ⟨label, by simp [isOnly]⟩

theorem isThrow_of_jumps (jumps : instruction.jumpTargets ≠ []) :
    instruction.isThrow = false := by
  cases instruction <;> first | rfl | exact absurd rfl jumps

theorem isPseudo_of_isThrow (isThrow : instruction.isThrow = true) :
    instruction.isPseudo = false := by
  cases instruction <;> first | rfl | cases isThrow

/-- Control goes on from the instruction to the next position, and only there. -/
structure GoesOn (instruction : Instruction) : Prop where
  noJump : instruction.jumpTargets = []
  noReturn : instruction.isReturn = false
  noThrow : instruction.isThrow = false

theorem goesOn_of_isPseudo (isPseudo : instruction.isPseudo = true) :
    instruction.GoesOn := by
  cases instruction <;> first | exact ⟨rfl, rfl, rfl⟩ | cases isPseudo

end Instruction

namespace Flow

variable {flow : Flow}

theorem mem_appendNew {positions : List Nat} {position other : Nat} :
    other ∈ appendNew positions position ↔ other ∈ positions ∨ other = position := by
  unfold appendNew
  split
  next known =>
    rw [List.contains_iff_mem] at known
    constructor
    · exact .inl
    · rintro (member | rfl)
      · exact member
      · exact known
  next => simp

/-! ## Size and protected ranges -/

@[simp] theorem size_markEntry (position : Nat) :
    (flow.markEntry position).size = flow.size := rfl

@[simp] theorem size_markExit (position : Nat) :
    (flow.markExit position).size = flow.size := rfl

@[simp] theorem targets_addSource (source target : Nat) :
    (flow.addSource source target).targets = flow.targets := by
  unfold addSource
  split <;> rfl

@[simp] theorem size_addSource (source target : Nat) :
    (flow.addSource source target).size = flow.size := by
  rw [size, targets_addSource, size]

@[simp] theorem ranges_addSource (source target : Nat) :
    (flow.addSource source target).ranges = flow.ranges := by
  unfold addSource
  split <;> rfl

@[simp] theorem exits_addSource (source target : Nat) :
    (flow.addSource source target).exits = flow.exits := by
  unfold addSource
  split <;> rfl

/-- Record several edges out of a position at their targets. -/
def addSources (flow : Flow) (source : Nat) (targets : List Nat) : Flow :=
  targets.foldl (fun flow target => flow.addSource source target) flow

@[simp] theorem targets_addSources (source : Nat) (targets : List Nat) :
    (flow.addSources source targets).targets = flow.targets := by
  induction targets generalizing flow with
  | nil => rfl
  | cons target rest ih => exact ih.trans (targets_addSource source target)

@[simp] theorem ranges_addSources (source : Nat) (targets : List Nat) :
    (flow.addSources source targets).ranges = flow.ranges := by
  induction targets generalizing flow with
  | nil => rfl
  | cons target rest ih => exact ih.trans (ranges_addSource source target)

@[simp] theorem exits_addSources (source : Nat) (targets : List Nat) :
    (flow.addSources source targets).exits = flow.exits := by
  induction targets generalizing flow with
  | nil => rfl
  | cons target rest ih => exact ih.trans (exits_addSource source target)

@[simp] theorem size_addSources (source : Nat) (targets : List Nat) :
    (flow.addSources source targets).size = flow.size := by
  rw [size, targets_addSources, size]

theorem jump_eq (source : Nat) (targets : List Nat) :
    flow.jump source targets =
      { (flow.markExit source).addSources source targets with
        targets := flow.targets.setIfInBounds source targets } := by
  change { (flow.markExit source).addSources source targets with
    targets :=
      ((flow.markExit source).addSources source targets).targets.setIfInBounds source
      targets } = _
  rw [targets_addSources]
  rfl

@[simp] theorem size_jump (source : Nat) (targets : List Nat) :
    (flow.jump source targets).size = flow.size := by
  simp [jump_eq, size]

@[simp] theorem ranges_jump (source : Nat) (targets : List Nat) :
    (flow.jump source targets).ranges = flow.ranges := by
  simp [jump_eq, markExit]

/-- Record an edge at its source. -/
def addTarget (flow : Flow) (source target : Nat) : Flow :=
  { flow.markExit source with targets := flow.targets.modify source (appendNew · target) }

@[simp] theorem size_addTarget (source target : Nat) :
    (flow.addTarget source target).size = flow.size :=
  Array.size_modify

theorem addEdge_eq (source target : Nat) :
    flow.addEdge source target = (flow.addTarget source target).addSource source target :=
  rfl

@[simp] theorem size_addEdge (source target : Nat) :
    (flow.addEdge source target).size = flow.size := by
  rw [addEdge_eq, size_addSource, size_addTarget]

@[simp] theorem ranges_addEdge (source target : Nat) :
    (flow.addEdge source target).ranges = flow.ranges := by
  rw [addEdge_eq, ranges_addSource]
  rfl

/-! ## Edges, entries and exits -/

theorem targetsOf_eq (position : Nat) :
    flow.targetsOf position = (flow.targets[position]?).getD [] :=
  Array.getD_eq_getD_getElem?

@[simp] theorem targetsOf_markEntry (marked position : Nat) :
    (flow.markEntry marked).targetsOf position = flow.targetsOf position := rfl

@[simp] theorem targetsOf_markExit (marked position : Nat) :
    (flow.markExit marked).targetsOf position = flow.targetsOf position := rfl

@[simp] theorem targetsOf_addSource (source target position : Nat) :
    (flow.addSource source target).targetsOf position = flow.targetsOf position := by
  rw [targetsOf, targets_addSource, targetsOf]

theorem targetsOf_jump (source : Nat) (targets : List Nat) (position : Nat) :
    (flow.jump source targets).targetsOf position =
      if position = source ∧ source < flow.size then targets
        else flow.targetsOf position := by
  rw [jump_eq, targetsOf_eq, targetsOf_eq, Array.getElem?_setIfInBounds]
  by_cases same : source = position
  · subst same
    by_cases inBounds : source < flow.size
    · simp [inBounds, show source < flow.targets.size from inBounds]
    · simp [inBounds, show ¬source < flow.targets.size from inBounds]
  · simp [same, Ne.symm same]

theorem targetsOf_addEdge (source target position : Nat) :
    (flow.addEdge source target).targetsOf position =
      if position = source ∧ source < flow.size then
        appendNew (flow.targetsOf source) target
      else
        flow.targetsOf position := by
  rw [addEdge_eq, targetsOf_addSource, targetsOf_eq, targetsOf_eq, targetsOf_eq]
  simp only [addTarget, Array.getElem?_modify]
  by_cases same : source = position
  · subst same
    by_cases inBounds : source < flow.size
    · simp [inBounds, Array.getElem?_eq_getElem
        (show source < flow.targets.size from inBounds)]
    · simp [inBounds, Array.getElem?_eq_none (Nat.le_of_not_lt inBounds)]
  · simp [same, Ne.symm same]

@[simp] theorem exits_jump (source : Nat) (targets : List Nat) :
    (flow.jump source targets).exits = flow.exits.insert source := by
  simp [jump_eq, markExit]

@[simp] theorem exits_addEdge (source target : Nat) :
    (flow.addEdge source target).exits = flow.exits.insert source := by
  rw [addEdge_eq, exits_addSource]
  rfl

theorem mem_entries_addSource {source target position : Nat} :
    position ∈ (flow.addSource source target).entries ↔
      position ∈ flow.entries ∨ position = target ∧ target < flow.size := by
  unfold addSource
  split
  next outside =>
    simp only [Nat.not_lt.mpr outside, and_false, or_false]
  next inBounds =>
    simp only [markEntry, IndexSet.mem_insert, Nat.lt_of_not_le inBounds, and_true]
    exact or_comm

theorem mem_entries_addSources {source position : Nat} {targets : List Nat} :
    position ∈ (flow.addSources source targets).entries ↔
      position ∈ flow.entries ∨ position ∈ targets ∧ position < flow.size := by
  induction targets generalizing flow with
  | nil => simp [addSources]
  | cons target rest ih =>
      change
        position ∈ ((flow.addSource source target).addSources source rest).entries ↔ _
      rw [ih, mem_entries_addSource, size_addSource, List.mem_cons,
        or_assoc, or_and_right]
      refine or_congr_right (or_congr_left ?_)
      exact and_congr_right fun same => by rw [same]

theorem mem_entries_jump {source position : Nat} {targets : List Nat} :
    position ∈ (flow.jump source targets).entries ↔
      position ∈ flow.entries ∨ position ∈ targets ∧ position < flow.size := by
  rw [jump_eq]
  exact mem_entries_addSources

theorem mem_entries_addEdge {source target position : Nat} :
    position ∈ (flow.addEdge source target).entries ↔
      position ∈ flow.entries ∨ position = target ∧ target < flow.size := by
  rw [addEdge_eq, mem_entries_addSource, size_addTarget]
  rfl

theorem sourcesOf_eq (position : Nat) :
    flow.sourcesOf position = (flow.sources[position]?).getD [] :=
  Array.getD_eq_getD_getElem?

theorem mem_predecessors {source target : Nat} :
    source ∈ flow.predecessors target ↔
      source ∈ flow.sourcesOf target ∨ flow.sourcesOf target = [] ∧
      source + 1 = target := by
  unfold predecessors
  split
  next noSource => simp [noSource]
  next noSource => simp [noSource]
  next notLater =>
    refine ⟨.inl, ?_⟩
    rintro (isSource | ⟨noSource, isNext⟩)
    · exact isSource
    · exact (notLater source noSource isNext.symm).elim

@[simp] theorem sourcesOf_markEntry (marked position : Nat) :
    (flow.markEntry marked).sourcesOf position = flow.sourcesOf position := rfl

@[simp] theorem sourcesOf_markExit (marked position : Nat) :
    (flow.markExit marked).sourcesOf position = flow.sourcesOf position := rfl

/-- The edges into a position are known for as many positions as the edges out of
a position. -/
def Balanced (flow : Flow) : Prop :=
  flow.sources.size = flow.size

theorem Balanced.addSource (balanced : flow.Balanced) (source target : Nat) :
    (flow.addSource source target).Balanced := by
  rw [Balanced, size_addSource]
  unfold Flow.addSource
  split
  · exact balanced
  · exact Array.size_modify.trans balanced

theorem mem_sourcesOf_addSource {source target position other : Nat}
    (balanced : flow.Balanced) :
    other ∈ (flow.addSource source target).sourcesOf position ↔
      other ∈ flow.sourcesOf position ∨
        position = target ∧ target < flow.size ∧ other = source := by
  unfold addSource
  split
  next outside =>
    simp [Nat.not_lt.mpr outside]
  next inBounds =>
    have inSources : target < flow.sources.size :=
      balanced.symm ▸ Nat.lt_of_not_le inBounds
    simp only [sourcesOf_eq, Array.getElem?_modify]
    by_cases same : target = position
    · subst same
      simp [Array.getElem?_eq_getElem inSources, mem_appendNew, Nat.lt_of_not_le inBounds]
    · simp [same, Ne.symm same]

theorem balanced_addSources {source : Nat} {targets : List Nat}
    (balanced : flow.Balanced) :
    (flow.addSources source targets).Balanced := by
  induction targets generalizing flow with
  | nil => exact balanced
  | cons target rest ih => exact ih (balanced.addSource source target)

theorem mem_sourcesOf_addSources {source position other : Nat} {targets : List Nat}
    (balanced : flow.Balanced) :
    other ∈ (flow.addSources source targets).sourcesOf position ↔
      other ∈ flow.sourcesOf position ∨
        position ∈ targets ∧ position < flow.size ∧ other = source := by
  induction targets generalizing flow with
  | nil => simp [addSources]
  | cons target rest ih =>
      change other ∈ ((flow.addSource source target).addSources source rest).sourcesOf
        position ↔ _
      rw [ih (balanced.addSource source target), mem_sourcesOf_addSource balanced,
        size_addSource, List.mem_cons, or_assoc, or_and_right]
      refine or_congr_right (or_congr_left ?_)
      exact and_congr_right fun same => by rw [same]

theorem balanced_jump {source : Nat} {targets : List Nat} (balanced : flow.Balanced) :
    (flow.jump source targets).Balanced := by
  rw [Balanced, size_jump, jump_eq]
  have marked : (flow.markExit source).Balanced := balanced
  exact (balanced_addSources marked).trans (size_addSources ..)

theorem mem_sourcesOf_jump {source position other : Nat} {targets : List Nat}
    (balanced : flow.Balanced) :
    other ∈ (flow.jump source targets).sourcesOf position ↔
      other ∈ flow.sourcesOf position ∨
        position ∈ targets ∧ position < flow.size ∧ other = source := by
  have marked : (flow.markExit source).Balanced := balanced
  rw [jump_eq]
  exact mem_sourcesOf_addSources marked

theorem Balanced.addTarget (balanced : flow.Balanced) (source target : Nat) :
    (flow.addTarget source target).Balanced :=
  balanced.trans (size_addTarget source target).symm

theorem balanced_addEdge {source target : Nat} (balanced : flow.Balanced) :
    (flow.addEdge source target).Balanced :=
  (balanced.addTarget source target).addSource source target

theorem mem_sourcesOf_addEdge {source target position other : Nat}
    (balanced : flow.Balanced) :
    other ∈ (flow.addEdge source target).sourcesOf position ↔
      other ∈ flow.sourcesOf position ∨
        position = target ∧ target < flow.size ∧ other = source := by
  rw [addEdge_eq, mem_sourcesOf_addSource (balanced.addTarget source target),
    size_addTarget]
  rfl

end Flow

end LocalTable
