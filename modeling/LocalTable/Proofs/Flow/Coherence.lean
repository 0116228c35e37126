import Mathlib.Data.List.Perm.Subperm
import Mathlib.Logic.Relation
import LocalTable.Proofs.Flow.Blocks

/-!
# Coherent flows

A flow keeps its edges twice, once at their sources and once at their targets, and the
ends of its blocks besides.  Throws, protected ranges and the ends of blocks can be gone
through in any order and any number of times: all of them only mark exits, add single
edges, and give edges to positions that have none.  As long as these edges stay inside
the code, both records agree, edges lead from exits to entries, and closing the blocks
changes nothing about where control can go.
-/

namespace LocalTable.Flow

/-- The targets of a position, apart from the first one, are distinct and inside the
code. -/
def Sparse (size : Nat) (targets : List Nat) : Prop :=
  targets.tail.Nodup ∧ ∀ target ∈ targets.tail, target < size

namespace Sparse

theorem nil (size : Nat) : Sparse size [] :=
  ⟨List.nodup_nil, by simp⟩

theorem singleton (size target : Nat) : Sparse size [target] :=
  ⟨List.nodup_nil, by simp⟩

theorem pair {size first second : Nat} (inBounds : second < size) :
    Sparse size [first, second] :=
  ⟨List.nodup_singleton second, by simpa using inBounds⟩

theorem of_nodup {size : Nat} {targets : List Nat} (nodup : targets.Nodup)
    (inBounds : ∀ target ∈ targets, target < size) : Sparse size targets :=
  ⟨nodup.tail, fun target member => inBounds target (List.mem_of_mem_tail member)⟩

theorem appendNew {size target : Nat} {targets : List Nat} (sparse : Sparse size targets)
    (inBounds : target < size) : Sparse size (Flow.appendNew targets target) := by
  unfold Flow.appendNew
  split
  next => exact sparse
  next unknown =>
    cases targets with
    | nil => exact .singleton size target
    | cons first rest =>
        rw [List.contains_iff_mem, List.mem_cons, not_or] at unknown
        constructor
        · refine List.nodup_append.mpr ⟨sparse.1, List.nodup_singleton target, ?_⟩
          rintro other member _ isTarget rfl
          exact unknown.2 (List.mem_singleton.mp isTarget ▸ member)
        · simpa [or_imp, forall_and] using ⟨sparse.2, inBounds⟩

/-- There are at most as many targets as there are positions in the code, and one more. -/
theorem length_le {size : Nat} {targets : List Nat} (sparse : Sparse size targets) :
    targets.length ≤ size + 1 := by
  have isSubset : targets.tail ⊆ List.range size := fun target member =>
    List.mem_range.mpr (sparse.2 target member)
  have few := (List.subperm_of_subset sparse.1 isSubset).length_le
  rw [List.length_range, List.length_tail] at few
  exact Nat.le_add_of_sub_le few

end Sparse

/-- The flow agrees with itself, and nothing of it is outside of the code.  Only the
first target of a position may lie behind the end, below the limit: a conditional jump
at the end goes on to nowhere. -/
structure Coherent (limit size : Nat) (ranges : List ProtectedRange) (flow : Flow) : Prop
    extends flow.Sound .unlimited where
  size_le : size ≤ limit
  size_eq : flow.size = size
  ranges_eq : flow.ranges = ranges
  target_of_source {source target : Nat} (isSource : source ∈ flow.sourcesOf target) :
    target ∈ flow.targetsOf source
  target_lt {source target : Nat} (isTarget : target ∈ flow.targetsOf source) :
    target < limit
  sparse (source : Nat) : Sparse size (flow.targetsOf source)
  entry_lt {position : Nat} (isEntry : position ∈ flow.entries) : position < size

/-- The protected ranges and their handlers lie in the code. -/
def Inside (size : Nat) (ranges : List ProtectedRange) : Prop :=
  ∀ range ∈ ranges, range.last < size ∧ range.handler < size

variable {limit size : Nat} {ranges : List ProtectedRange} {flow next : Flow}

theorem lt_size_of_target {source target : Nat}
    (isTarget : target ∈ flow.targetsOf source) :
    source < flow.size := by
  by_contra outside
  rw [targetsOf_eq, Array.getElem?_eq_none (Nat.le_of_not_lt outside)] at isTarget
  cases isTarget

/-! ## Edits -/

namespace Coherent

theorem mem_targetsOf_iff (coherent : flow.Coherent size size ranges)
    {source target : Nat} :
    target ∈ flow.targetsOf source ↔ source ∈ flow.sourcesOf target := by
  constructor
  · intro isTarget
    have inBounds := coherent.target_lt isTarget
    rw [← coherent.size_eq] at inBounds
    exact (coherent.entry_of_target isTarget inBounds).2
  · exact coherent.target_of_source

theorem mem_entries_of_target (coherent : flow.Coherent size size ranges)
    {source target : Nat} (isTarget : target ∈ flow.targetsOf source) :
    target ∈ flow.entries := by
  have inBounds := coherent.target_lt isTarget
  rw [← coherent.size_eq] at inBounds
  exact (coherent.entry_of_target isTarget inBounds).1

theorem markExit (coherent : flow.Coherent limit size ranges) (position : Nat) :
    (flow.markExit position).Coherent limit size ranges where
  toSound := coherent.toSound.markExit .intro
  size_le := coherent.size_le
  size_eq := coherent.size_eq
  ranges_eq := coherent.ranges_eq
  target_of_source := coherent.target_of_source
  target_lt := coherent.target_lt
  sparse := coherent.sparse
  entry_lt := coherent.entry_lt

theorem jump {source : Nat} {targets : List Nat}
    (coherent : flow.Coherent limit size ranges) (fresh : flow.targetsOf source = [])
    (inBounds : source < size) (targetsInBounds : ∀ target ∈ targets, target < limit)
    (sparse : Sparse size targets) :
    (flow.jump source targets).Coherent limit size ranges where
  toSound := coherent.toSound.jump (fun _ _ => .intro) (.inl .intro)
  size_le := coherent.size_le
  size_eq := (size_jump ..).trans coherent.size_eq
  ranges_eq := (ranges_jump ..).trans coherent.ranges_eq
  target_of_source {other target} isSource := by
    rw [targetsOf_jump, coherent.size_eq]
    rcases (mem_sourcesOf_jump coherent.balanced).mp isSource with
      isSource | ⟨isTarget, _, rfl⟩
    · have isTarget := coherent.target_of_source isSource
      -- The source of the jump had no edges, so it is another position.
      have different : other ≠ source := by
        rintro rfl
        rw [fresh] at isTarget
        cases isTarget
      simpa [different] using isTarget
    · simpa [inBounds] using isTarget
  target_lt {other target} isTarget := by
    rw [targetsOf_jump] at isTarget
    split at isTarget
    · exact targetsInBounds target isTarget
    · exact coherent.target_lt isTarget
  sparse other := by
    rw [targetsOf_jump]
    split
    · exact sparse
    · exact coherent.sparse other
  entry_lt {position} isEntry := by
    rcases mem_entries_jump.mp isEntry with isEntry | ⟨_, isInside⟩
    · exact coherent.entry_lt isEntry
    · exact coherent.size_eq ▸ isInside

theorem addEdge {source target : Nat} (coherent : flow.Coherent limit size ranges)
    (inBounds : source < size) (targetInBounds : target < size) :
    (flow.addEdge source target).Coherent limit size ranges where
  toSound := coherent.toSound.addEdge .intro (.inl .intro)
  size_le := coherent.size_le
  size_eq := (size_addEdge ..).trans coherent.size_eq
  ranges_eq := (ranges_addEdge ..).trans coherent.ranges_eq
  target_of_source {other position} isSource := by
    rw [targetsOf_addEdge, coherent.size_eq]
    rcases (mem_sourcesOf_addEdge coherent.balanced).mp isSource with
      isSource | ⟨rfl, _, rfl⟩
    · have isTarget := coherent.target_of_source isSource
      split
      next same => exact mem_appendNew.mpr (.inl (same.1 ▸ isTarget))
      next => exact isTarget
    · simp [inBounds, mem_appendNew]
  target_lt {other position} isTarget := by
    rw [targetsOf_addEdge] at isTarget
    split at isTarget
    · rcases mem_appendNew.mp isTarget with isTarget | rfl
      · exact coherent.target_lt isTarget
      · exact Nat.lt_of_lt_of_le targetInBounds coherent.size_le
    · exact coherent.target_lt isTarget
  sparse other := by
    rw [targetsOf_addEdge]
    split
    · exact (coherent.sparse source).appendNew targetInBounds
    · exact coherent.sparse other
  entry_lt {position} isEntry := by
    rcases mem_entries_addEdge.mp isEntry with isEntry | ⟨rfl, _⟩
    · exact coherent.entry_lt isEntry
    · exact targetInBounds

theorem addEdges {source : Nat} {targets : List Nat}
    (coherent : flow.Coherent limit size ranges) (inBounds : source < size)
    (targetsInBounds : ∀ target ∈ targets, target < size) :
    (targets.foldl (fun flow target => flow.addEdge source target) flow).Coherent
      limit size ranges := by
  apply List.foldlRecOn (motive := Coherent limit size ranges)
  · exact coherent
  · intro reached reachedCoherent target isTarget
    exact reachedCoherent.addEdge inBounds (targetsInBounds target isTarget)

/-! ## Passes -/

theorem addThrow {hierarchy : Hierarchy} {position : Nat} {thrown : Option ValueType}
    (coherent : flow.Coherent limit size ranges) (inside : Inside size ranges)
    (inBounds : position < size)
    (added : (Query.addThrow flow position thrown : Query hierarchy Flow).eval =
      .ok next) :
    next.Coherent limit size ranges := by
  rcases addThrow_eq_ok added with rfl | ⟨handlers, _, rfl, caught⟩
  · exact coherent.markExit position
  · apply coherent.addEdges inBounds
    intro handler member
    obtain ⟨range, inRanges, _, _, rfl⟩ := caught handler member
    exact (inside range (coherent.ranges_eq ▸ inRanges)).2

theorem protectPosition {range : ProtectedRange} {position : Nat}
    (coherent : flow.Coherent limit size ranges) (inBounds : position < size)
    (lastInBounds : range.last < size) (handlerInBounds : range.handler < size)
    (changed : Bool) :
    (Flow.protectPosition range flow position changed).Coherent limit size ranges := by
  unfold Flow.protectPosition
  split
  next => exact coherent.addEdge inBounds handlerInBounds
  next noTarget =>
    have fresh : flow.targetsOf position = [] := by simpa using noTarget
    have toHandler : (flow.jump position [range.handler]).Coherent limit size ranges :=
      coherent.jump fresh inBounds
        (by simpa using Nat.lt_of_lt_of_le handlerInBounds coherent.size_le)
          (.singleton size _)
    split
    · exact toHandler
    · split
      · split
        next before =>
          apply coherent.jump fresh inBounds
          · intro target isTarget
            apply Nat.lt_of_lt_of_le _ coherent.size_le
            rcases List.mem_pair.mp isTarget with rfl | rfl
            · exact Nat.lt_of_le_of_lt before lastInBounds
            · exact handlerInBounds
          · exact .pair handlerInBounds
        next => exact toHandler
      · exact coherent

theorem protectRange {instructions : Array Instruction} {range : ProtectedRange}
    (coherent : flow.Coherent limit instructions.size ranges)
    (lastInBounds : range.last < instructions.size)
    (handlerInBounds : range.handler < instructions.size) :
    (Flow.protectRange instructions flow range).Coherent limit
      instructions.size ranges := by
  apply List.foldlRecOn
    (motive := fun state : Flow × Bool => state.1.Coherent limit instructions.size ranges)
  · exact coherent
  · rintro ⟨reached, changed⟩ reachedCoherent position _
    simp only [protectRange.visit]
    split
    next => exact reachedCoherent
    next instruction found =>
      have inBounds := (Array.getElem?_eq_some_iff.mp found).1
      split
      · exact reachedCoherent
      · exact reachedCoherent.protectPosition inBounds lastInBounds
          handlerInBounds changed

theorem protect {instructions : Array Instruction}
    (coherent : flow.Coherent limit instructions.size ranges)
    (inside : Inside instructions.size ranges) :
    (flow.protect instructions).Coherent limit instructions.size ranges := by
  unfold Flow.protect
  rw [coherent.ranges_eq]
  apply List.foldlRecOn (motive := Coherent limit instructions.size ranges)
  · exact coherent
  · intro reached reachedCoherent range member
    exact reachedCoherent.protectRange (inside range member).1 (inside range member).2

theorem close {position : Nat} (coherent : flow.Coherent limit size ranges)
    (inBounds : position + 1 < size) :
    (closeBlocks.close flow position).Coherent limit size ranges := by
  unfold closeBlocks.close
  split
  next opens =>
    simp only [Bool.and_eq_true, List.isEmpty_iff] at opens
    apply coherent.jump opens.2 (Nat.lt_of_succ_lt inBounds) _ (.singleton size _)
    simpa using Nat.lt_of_lt_of_le inBounds coherent.size_le
  next => exact coherent

/-- Making it explicit that control goes on into an entry changes no successors. -/
theorem successors_close {position : Nat} (coherent : flow.Coherent limit size ranges)
    (inBounds : position + 1 < size) (other : Nat) :
    (closeBlocks.close flow position).successors other = flow.successors other := by
  unfold closeBlocks.close
  split
  next opens =>
    simp only [Bool.and_eq_true, Bool.not_eq_true', List.isEmpty_iff] at opens
    obtain ⟨⟨goesOn, _⟩, noTarget⟩ := opens
    have inside : position < flow.size := by
      rw [coherent.size_eq]
      exact Nat.lt_of_succ_lt inBounds
    by_cases same : other = position
    · subst same
      have hasNext : ¬flow.size ≤ other + 1 := by
        rw [coherent.size_eq]
        exact Nat.not_le_of_lt inBounds
      simp [successors, targetsOf_jump, inside, noTarget, goesOn, hasNext]
    · simp [successors, targetsOf_jump, same, Ne.symm same]
  next => rfl

theorem closeBlocks (coherent : flow.Coherent limit size ranges) :
    flow.closeBlocks.Coherent limit size ranges ∧
      ∀ position, flow.closeBlocks.successors position = flow.successors position := by
  apply List.foldlRecOn (motive := fun reached : Flow =>
    reached.Coherent limit size ranges ∧
    ∀ position, reached.successors position = flow.successors position)
  · exact ⟨coherent, fun _ => rfl⟩
  · rintro reached ⟨reachedCoherent, successors_eq⟩ position member
    have inBounds : position + 1 < size := by
      rw [List.mem_range, coherent.size_eq] at member
      omega
    refine ⟨reachedCoherent.close inBounds, fun other => ?_⟩
    rw [reachedCoherent.successors_close inBounds, successors_eq]

end Coherent

/-! ## Both directions -/

/-- Control goes from one position to the other, or it goes there from nowhere and the
one is right before the other. -/
def Precedes (flow : Flow) (before after : Nat) : Prop :=
  after ∈ flow.successors before ∨ after = before + 1 ∧
    ∀ other, after ∉ flow.successors other

theorem mem_successors {position next : Nat} : next ∈ flow.successors position ↔
    next ∈ flow.targetsOf position ∨ flow.targetsOf position = [] ∧
    position ∉ flow.exits ∧
      next = position + 1 ∧ next < flow.size := by
  unfold successors
  split
  next noTarget =>
    split
    next stops =>
      rw [Bool.or_eq_true, decide_eq_true_iff, ← IndexSet.mem_iff] at stops
      simp only [noTarget, List.not_mem_nil, true_and, false_or, false_iff]
      rintro ⟨goesOn, rfl, inBounds⟩
      exact stops.elim goesOn (Nat.not_le_of_lt inBounds)
    next goesOn =>
      rw [Bool.or_eq_true, decide_eq_true_iff, ← IndexSet.mem_iff, not_or,
        Nat.not_le] at goesOn
      simp only [noTarget, List.not_mem_nil, List.mem_singleton, true_and, false_or]
      constructor
      · rintro rfl
        exact ⟨goesOn.1, rfl, goesOn.2⟩
      · exact fun isNext => isNext.2.1
  next hasTarget =>
    have nonempty : flow.targetsOf position ≠ [] := hasTarget
    simp [nonempty]

/-- A walk against the flow of closed blocks goes where control comes from. -/
theorem Coherent.mem_predecessors_iff {position before : Nat}
    (coherent : flow.Coherent limit size ranges) (closed : flow.Closed)
    (inBounds : position < size) :
    before ∈ flow.predecessors position ↔ flow.Precedes before position := by
  rw [← coherent.size_eq] at inBounds
  -- Control falls through only into positions that no edge leads to.
  have noSource_of_goesOn {other : Nat} (goesOn : other ∉ flow.exits)
      (isNext : position = other + 1) : flow.sourcesOf position = [] := by
    by_contra hasSource
    obtain ⟨source, isSource⟩ := List.exists_mem_of_ne_nil _ hasSource
    have isEntry :=
      (coherent.entry_of_target (coherent.target_of_source isSource) inBounds).1
    rw [isNext] at isEntry inBounds
    exact goesOn (closed other inBounds isEntry)
  rw [mem_predecessors, Precedes, mem_successors]
  constructor
  · rintro (isSource | ⟨noSource, rfl⟩)
    · exact .inl (.inl (coherent.target_of_source isSource))
    · by_cases isLed : ∃ other, before + 1 ∈ flow.successors other
      · obtain ⟨other, leads⟩ := isLed
        rcases mem_successors.mp leads with isTarget | ⟨noTarget, goesOn, isNext, _⟩
        · have isSource := (coherent.entry_of_target isTarget inBounds).2
          rw [noSource] at isSource
          cases isSource
        · cases isNext
          exact .inl (.inr ⟨noTarget, goesOn, rfl, inBounds⟩)
      · exact .inr ⟨rfl, fun other leads => isLed ⟨other, leads⟩⟩
  · rintro ((isTarget | ⟨_, goesOn, isNext, _⟩) | ⟨isNext, unled⟩)
    · exact .inl (coherent.entry_of_target isTarget inBounds).2
    · exact .inr ⟨noSource_of_goesOn goesOn isNext, isNext.symm⟩
    · refine .inr ⟨?_, isNext.symm⟩
      by_contra hasSource
      obtain ⟨source, isSource⟩ := List.exists_mem_of_ne_nil _ hasSource
      exact unled source (mem_successors.mpr (.inl (coherent.target_of_source isSource)))

theorem Coherent.lt_of_precedes {before after : Nat}
    (coherent : flow.Coherent limit size ranges) (precedes : flow.Precedes before after)
    (inBounds : after < size) : before < size := by
  rcases precedes with leads | ⟨rfl, _⟩
  · rcases mem_successors.mp leads with isTarget | ⟨_, _, rfl, _⟩
    · exact coherent.size_eq ▸ lt_size_of_target isTarget
    · exact Nat.lt_of_succ_lt inBounds
  · exact Nat.lt_of_succ_lt inBounds

/-! ## Branches -/

theorem position?_lt {code : Code} {label : Label} {position : Nat}
    (placed : code.position? label = some position) : position < code.instructions.size :=
  (Array.getElem?_eq_some_iff.mp (Code.getElem?_of_position? placed)).1

theorem inside_of_rangeOf {code : Code}
    (resolved : code.handlers.mapM (rangeOf code) = .ok ranges) :
    Inside code.instructions.size ranges := by
  intro range member
  obtain ⟨handler, _, isRange⟩ := (mapM_eq_ok resolved).2 range member
  obtain ⟨_, isLast, isHandler, _⟩ := rangeOf_eq_ok.mp isRange
  exact ⟨position?_lt isLast, position?_lt isHandler⟩

theorem coherent_unrecorded (inside : Inside size ranges) (size_le : size ≤ limit) :
    (unrecorded size ranges).Coherent limit size ranges where
  toSound := unrecorded_sound size ranges
  size_le := size_le
  size_eq := size_unrecorded size ranges
  ranges_eq := ranges_unrecorded size ranges
  target_of_source isSource := by
    rw [sourcesOf_unrecorded] at isSource
    cases isSource
  target_lt isTarget := by
    rw [targetsOf_unrecorded] at isTarget
    cases isTarget
  sparse source := by
    rw [targetsOf_unrecorded]
    exact .nil size
  entry_lt {position} isEntry := by
    rcases (mem_entries_unrecorded size ranges).mp isEntry with
      ⟨rfl, nonempty⟩ | ⟨range, member, rfl⟩
    · exact Nat.pos_of_ne_zero nonempty
    · exact (inside range member).2

/-- The last instruction is no conditional jump, from which control could go on to
nowhere. -/
def EndsPlainly (code : Code) : Prop :=
  ∀ last, code.instructions.back? = some last → last.isConditionalJump = false

/-- Below the limit lie all positions that the jumps and switches of the code go to. -/
def LeadsBelow (limit : Nat) (code : Code) : Prop :=
  ∀ position instruction targets, code.instructions[position]? = some instruction →
    destinations code position instruction = .ok targets →
      ∀ target ∈ targets, target < limit

theorem leadsBelow_succ (code : Code) : LeadsBelow (code.instructions.size + 1) code := by
  intro position instruction targets found resolved target member
  have inBounds := (Array.getElem?_eq_some_iff.mp found).1
  rcases (mem_destinations resolved).mp member with ⟨label, _, placed⟩ | ⟨_, rfl⟩
  · exact Nat.lt_succ_of_lt (position?_lt placed)
  · exact Nat.succ_lt_succ inBounds

theorem leadsBelow_of_endsPlainly {code : Code} (ends : EndsPlainly code) :
    LeadsBelow code.instructions.size code := by
  intro position instruction targets found resolved target member
  rcases (mem_destinations resolved).mp member with
    ⟨label, _, placed⟩ | ⟨isConditional, rfl⟩
  · exact position?_lt placed
  · have inBounds := (Array.getElem?_eq_some_iff.mp found).1
    by_contra outside
    have isLast : code.instructions.back? = some instruction := by
      rw [Array.back?_eq_getElem?, ← found]
      congr 1
      omega
    rw [ends instruction isLast] at isConditional
    cases isConditional

theorem sparse_destinations {code : Code} {position : Nat} {instruction : Instruction}
    {targets : List Nat} (resolved : destinations code position instruction =
      .ok targets) :
    Sparse code.instructions.size targets := by
  obtain ⟨positions, isPositions, resolved⟩ := bind_eq_ok.mp resolved
  have inBounds : ∀ target ∈ positions, target < code.instructions.size := by
    intro target member
    obtain ⟨label, _, placed⟩ := (mapM_eq_ok isPositions).2 target member
    exact position?_lt (positionOf_eq_ok.mp placed)
  split at resolved
  next isConditional =>
    cases resolved
    obtain ⟨label, isOnly⟩ := Instruction.exists_jumpTargets_eq isConditional
    rw [isOnly, List.mapM_cons, List.mapM_nil] at isPositions
    obtain ⟨target, _, ⟨⟩⟩ := bind_eq_ok.mp isPositions
    rw [List.flatMap_singleton]
    split
    · exact .singleton _ target
    · exact .pair (inBounds target (List.mem_singleton_self target))
  next =>
    cases resolved
    exact .of_nodup (nodup_eraseDups positions) fun target member =>
      inBounds target (List.mem_eraseDups.mp member)

theorem Coherent.addInstruction {code : Code} {instruction : Instruction} {position : Nat}
    (coherent : flow.Coherent limit code.instructions.size ranges)
    (below : LeadsBelow limit code)
    (found : code.instructions[position]? = some instruction)
    (fresh : flow.targetsOf position = [])
    (added : Flow.addInstruction code flow instruction position = .ok next) :
    next.Coherent limit code.instructions.size ranges := by
  rcases addInstruction_eq_ok added with
    ⟨_, _, rfl⟩ | ⟨_, _, rfl⟩ | ⟨_, targets, resolved, rfl⟩
  · exact coherent.markExit position
  · exact coherent
  · exact coherent.jump fresh (Array.getElem?_eq_some_iff.mp found).1
      (below position instruction targets found resolved) (sparse_destinations resolved)

theorem coherent_ofCode {code : Code} (size_le : code.instructions.size ≤ limit)
    (below : LeadsBelow limit code) (built : ofCode code = .ok flow) :
    ∃ ranges, Inside code.instructions.size ranges ∧
      flow.Coherent limit code.instructions.size ranges := by
  obtain ⟨ranges, resolved, folded⟩ := bind_eq_ok.mp built
  have inside := inside_of_rangeOf resolved
  refine ⟨ranges, inside, ?_⟩
  have start : Recorded .unlimited code ranges 0
      (unrecorded code.instructions.size ranges) := by
    exact ⟨.refl, size_unrecorded .., fun _ => targetsOf_unrecorded .., by simp, by simp⟩
  have reached := foldlM_zipIdx_induction
    (P := fun position reached => Recorded .unlimited code ranges position reached ∧
      reached.Coherent limit code.instructions.size ranges)
    (fun index instruction before after found holds added => ?_)
    ⟨start, coherent_unrecorded inside size_le⟩ folded
  · exact reached.2
  · rw [Nat.zero_add] at holds added ⊢
    have found : code.instructions[index]? = some instruction := by simpa using found
    obtain ⟨recorded, coherent⟩ := holds
    exact ⟨recorded.addInstruction (unlimited_admits code) found added,
      coherent.addInstruction below found (recorded.fresh (Nat.le_refl index)) added⟩

/-! ## Any number of passes -/

/-- One pass over the flow of a method: a throw at an instruction is recorded, the
protected ranges get their edges, or the blocks are closed. -/
inductive Pass (instructions : Array Instruction) : Flow → Flow → Prop where
  | addThrow {hierarchy : Hierarchy} {flow next : Flow} {position : Nat}
      {thrown : Option ValueType} (inBounds : position < instructions.size)
      (added : (Query.addThrow flow position thrown : Query hierarchy Flow).eval =
        .ok next) :
      Pass instructions flow next
  | protect (flow : Flow) : Pass instructions flow (flow.protect instructions)
  | closeBlocks (flow : Flow) : Pass instructions flow flow.closeBlocks

theorem Coherent.pass {instructions : Array Instruction}
    (coherent : flow.Coherent limit instructions.size ranges)
    (inside : Inside instructions.size ranges)
    (pass : Pass instructions flow next) :
    next.Coherent limit instructions.size ranges := by
  cases pass with
  | addThrow inBounds added => exact coherent.addThrow inside inBounds added
  | protect => exact coherent.protect inside
  | closeBlocks => exact coherent.closeBlocks.1

theorem Coherent.passes {instructions : Array Instruction}
    (coherent : flow.Coherent limit instructions.size ranges)
    (inside : Inside instructions.size ranges)
    (passed : Relation.ReflTransGen (Pass instructions) flow next) :
    next.Coherent limit instructions.size ranges := by
  induction passed with
  | refl => exact coherent
  | tail _ pass ih => exact ih.pass inside pass

/-- After any passes in any order, edges are recorded at both ends, lie inside the code,
and lead from exits to entries.  Closing the blocks then ends a block before every
entry, so that no position lies in the blocks of two entries, and control still goes
where it went. -/
theorem edges_stay_coherent {code : Code} {branches flow : Flow} (ends : EndsPlainly code)
    (built : ofCode code = .ok branches)
    (passed : Relation.ReflTransGen (Pass code.instructions) branches flow) :
    flow.size = code.instructions.size ∧
    (∀ source target, target ∈ flow.targetsOf source ↔ source ∈ flow.sourcesOf target) ∧
    (∀ source target, target ∈ flow.targetsOf source →
      source < flow.size ∧ target < flow.size ∧ source ∈ flow.exits ∧
      target ∈ flow.entries) ∧
    (∀ position, position + 1 ∈ flow.closeBlocks.entries →
      position ∈ flow.closeBlocks.exits) ∧
    (∀ left ∈ flow.closeBlocks.entries, ∀ right ∈ flow.closeBlocks.entries,
      ∀ position < flow.size, flow.closeBlocks.InBlockOf left position →
        flow.closeBlocks.InBlockOf right position →
      left = right) ∧
    ∀ position, flow.closeBlocks.successors position = flow.successors position := by
  obtain ⟨ranges, inside, branchesCoherent⟩ :=
    coherent_ofCode (Nat.le_refl _) (leadsBelow_of_endsPlainly ends) built
  have coherent := branchesCoherent.passes inside passed
  obtain ⟨closedCoherent, successors_eq⟩ := coherent.closeBlocks
  have closed : flow.closeBlocks.Closed :=
    closed_closeBlocks (unlimited_completes coherent.size_eq) coherent.toSound
  have size_eq : flow.closeBlocks.size = flow.size :=
    closedCoherent.size_eq.trans coherent.size_eq.symm
  refine ⟨coherent.size_eq, fun _ _ => coherent.mem_targetsOf_iff, ?_, ?_, ?_,
    successors_eq⟩
  · intro source target isTarget
    refine ⟨lt_size_of_target isTarget, ?_, ?_, coherent.mem_entries_of_target isTarget⟩
    · rw [coherent.size_eq]
      exact coherent.target_lt isTarget
    · exact coherent.exit_of_target (List.ne_nil_of_mem isTarget)
  · intro position isEntry
    apply closed position _ isEntry
    rw [closedCoherent.size_eq]
    exact closedCoherent.entry_lt isEntry
  · intro left leftEntry right rightEntry position inBounds inLeft inRight
    rw [← size_eq] at inBounds
    exact closed.entry_unique inBounds leftEntry rightEntry inLeft inRight

/-- A throw in two protected ranges, one of which has its handler inside of itself. -/
def guardedCode : Code :=
  { maxStack := 1
    maxLocals := 1
    instructions :=
      #[.label ⟨0⟩, .pushNull, .store .ref 0, .load .ref 0, .throwRef, .label ⟨1⟩,
      .pop, .label ⟨2⟩, .returnVoid]
    handlers := [⟨⟨0⟩, ⟨2⟩, ⟨1⟩, none⟩, ⟨⟨0⟩, ⟨1⟩, ⟨2⟩, none⟩]
    table := none }

/-- The throw is recorded, the blocks are closed, and then the throw and the ranges are
gone through again and again.  The throw leads to both handlers, which know it in turn,
and closing the blocks for the last time lets control go on from the load as before. -/
theorem guarded_edges_stay_coherent :
    ∃ branches flow, EndsPlainly guardedCode ∧ ofCode guardedCode = .ok branches ∧
      Relation.ReflTransGen (Pass guardedCode.instructions) branches flow ∧
      flow.targetsOf 4 = [5, 7] ∧ 4 ∈ flow.sourcesOf 5 ∧ 4 ∈ flow.sourcesOf 7 ∧
      4 ∈ flow.exits ∧ 5 ∈ flow.entries ∧ 4 ∈ flow.closeBlocks.exits ∧
      flow.successors 3 = [4, 5, 7] ∧ flow.closeBlocks.successors 3 = [4, 5, 7] := by
  have ends : EndsPlainly guardedCode := by
    rintro _ ⟨⟩
    rfl
  have ran : (do
      let branches ← Query.ofExcept (ofCode guardedCode)
      let thrown ← Query.addThrow branches 4 (some .null)
      let flow := thrown.closeBlocks.protect guardedCode.instructions
      let again ← Query.addThrow flow 4 none
      let flow := again.protect guardedCode.instructions
      return (flow.targetsOf 4, flow.closeBlocks.entries.contains 5, flow.successors 3) :
        Query ⟨[]⟩ _).eval = .ok ([5, 7], true, [4, 5, 7]) := by
    decide +kernel
  obtain ⟨branches, built, ran⟩ := Query.eval_bind_eq_ok.mp ran
  obtain ⟨thrown, added, ran⟩ := Query.eval_bind_eq_ok.mp ran
  obtain ⟨again, addedAgain, described⟩ := Query.eval_bind_eq_ok.mp ran
  obtain ⟨flow, isFlow⟩ : ∃ flow, flow = again.protect guardedCode.instructions :=
    ⟨_, rfl⟩
  have described := Except.ok.inj described
  simp only [Prod.mk.injEq, ← isFlow] at described
  obtain ⟨leads, isEntry, goesOn⟩ := described
  have passed : Relation.ReflTransGen (Pass guardedCode.instructions) branches flow := by
    rw [isFlow]
    exact .tail
      (.tail (.tail (.tail (.single (.addThrow (by decide) added)) (.closeBlocks _))
      (.protect _)) (.addThrow (by decide) addedAgain)) (.protect _)
  rw [Query.eval_ofExcept] at built
  obtain ⟨_, mirrored, within, closed, _, successors_eq⟩ :=
    edges_stay_coherent ends built passed
  have isTarget : 5 ∈ flow.targetsOf 4 := by simp [leads]
  have isOther : 7 ∈ flow.targetsOf 4 := by simp [leads]
  obtain ⟨_, _, isExit, isTargetEntry⟩ := within 4 5 isTarget
  exact ⟨branches, flow, ends, built, passed, leads, (mirrored 4 5).mp isTarget,
    (mirrored 4 7).mp isOther, isExit, isTargetEntry, closed 4 isEntry, goesOn,
    (successors_eq 3).trans goesOn⟩

end LocalTable.Flow
