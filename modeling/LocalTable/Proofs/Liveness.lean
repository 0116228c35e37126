import Mathlib.Logic.Relation
import LocalTable.Liveness
import LocalTable.Proofs.Frames.Extent
import LocalTable.Proofs.Frames.Reach
import LocalTable.Proofs.IndexSet

/-!
# Live slots

A slot is needed at a position if control can get from there to an instruction that
reads it, while the slot holds a value all along the way and is not stored to.  A slot
lingers if it was stored in the same block and has not been needed since.

The sweeps find the needed slots, no more and no less: each slot that they add starts
such a path, and as a last sweep changes nothing, no path is missing.  The pass that
keeps stored locals alive then adds the slots that linger.
-/

namespace LocalTable

/-! ## Steps that settle -/

/-- Where one item of a list becomes lighter, the whole list does. -/
theorem foldr_weight_lt {α : Type} {weight : α → Nat}
    {earlier later : List α} {old new : α} (lighter : weight new < weight old) :
    (earlier ++ new :: later).foldr (fun item total => weight item + total) 0 <
      (earlier ++ old :: later).foldr (fun item total => weight item + total) 0 := by
  induction earlier with
  | nil => exact Nat.add_lt_add_right lighter _
  | cons item rest ih => exact Nat.add_lt_add_left ih _

/-- If every step changes nothing or lowers a measure, then steps that have not lowered it
in the end have not changed anything. -/
theorem foldl_eq_or_lt {α β : Type} (measure : β → Nat) {step : β → α → β}
    (falls : ∀ state item, step state item = state ∨
      measure (step state item) < measure state)
    (items : List α) (state : β) :
    (items.foldl step state = state ∧ ∀ item ∈ items, step state item = state) ∨
      measure (items.foldl step state) < measure state := by
  induction items generalizing state with
  | nil => simp
  | cons item rest ih =>
      rcases falls state item with same | first
      · rw [List.foldl_cons, same]
        simpa [same] using ih state
      · rcases ih (step state item) with ⟨same, _⟩ | others
        · exact .inr (by rwa [List.foldl_cons, same])
        · exact .inr (Nat.lt_trans others first)

/-! ## Needed slots -/

theorem Frame.mem_occupied {frame : Frame} {slot : Nat} :
    slot ∈ frame.occupied ↔ (frame.localAt slot).isSome = true := by
  simp only [occupied, List.mem_filter, List.mem_range, and_iff_right_iff_imp]
  intro isSome
  exact lt_size_of_localAt (Option.some_get isSome).symm

theorem Frame.mem_usable {frame : Frame} {slot : Nat} :
    slot ∈ frame.usable ↔ ∃ type, frame.localAt slot = some type ∧ type ≠ .top := by
  simp only [usable, IndexSet.mem_ofList, List.mem_filter, mem_occupied,
    Option.isSome_iff_exists, decide_eq_true_eq]
  constructor
  · rintro ⟨⟨type, held⟩, notTop⟩
    exact ⟨type, held, fun isTop => notTop (isTop ▸ held)⟩
  · rintro ⟨type, held, notTop⟩
    exact ⟨⟨type, held⟩, by simpa [held] using notTop⟩

theorem Frame.Shaped.lt_of_usable {maxLocals slot : Nat} {frame : Frame}
    (shaped : frame.Shaped maxLocals) (isUsable : slot ∈ frame.usable) :
    slot < maxLocals := by
  obtain ⟨type, held, _⟩ := mem_usable.mp isUsable
  exact shaped.size_eq ▸ lt_size_of_localAt held

/-- The slot holds a value at the position. -/
def Frames.Usable (frames : Frames) (slot position : Nat) : Prop :=
  ∃ type, frames.localAt position slot = some type ∧ type ≠ .top

theorem Frames.usable_iff {frames : Frames} {frame : Frame} {slot position : Nat}
    (there : frames.at? position = some frame) :
    frames.Usable slot position ↔ slot ∈ frame.usable := by
  rw [Frames.Usable, Frames.localAt, there, Frame.mem_usable]
  rfl

theorem Frames.Usable.exists_frame {frames : Frames} {slot position : Nat}
    (isUsable : frames.Usable slot position) :
    ∃ frame, frames.at? position = some frame := by
  obtain ⟨type, held, _⟩ := isUsable
  obtain ⟨frame, there, _⟩ := localAt_eq_some.mp held
  exact ⟨frame, there⟩

/-- The instruction loads the slot, or consumes a value that was loaded from it.  A value
that is consumed by a store to the same slot does not count. -/
def Instruction.Reads (instruction : Instruction) (frame : Frame) (slot : Nat) : Prop :=
  instruction.loaded? = some slot ∨
    instruction.stored? ≠ some slot ∧ ∃ cell ∈ frame.stack.take instruction.stackDemand,
      cell.type ≠ some .top ∧ cell.source = some slot

namespace Liveness

section Specification

variable (instructions : Array Instruction) (flow : Flow) (frames : Frames) (slot : Nat)

/-- The slot is stored to at the position. -/
def Stores (position : Nat) : Prop :=
  (instructions[position]?).bind Instruction.stored? = some slot

/-- The slot is read at the position. -/
def ReadAt (position : Nat) : Prop :=
  ∃ frame instruction, frames.at? position = some frame ∧
    instructions[position]? = some instruction ∧ instruction.Reads frame slot

/-- Control can go on to the next position, and the slot keeps its value. -/
def Carries (position next : Nat) : Prop :=
  frames.Usable slot position ∧ ¬Stores instructions slot position ∧
    next ∈ flow.successors position

/-- The value of the slot is carried to a position that reads it. -/
def Needed (position : Nat) : Prop :=
  ∃ reader, Relation.ReflTransGen (Carries instructions flow frames slot)
    position reader ∧
    frames.Usable slot reader ∧ ReadAt instructions frames slot reader

/-- The slot was stored to in the block of the position, and has not been needed since. -/
def Lingers (position : Nat) : Prop :=
  ∃ store < position, Stores instructions slot store ∧
    ∀ between, store < between → between ≤ position →
      between ∉ flow.entries ∧ ¬Needed instructions flow frames slot between

end Specification

variable {instructions : Array Instruction} {flow : Flow} {frames : Frames}
  {maxLocals : Nat} {liveness : Liveness} {position slot : Nat}

theorem Needed.of_carries {next : Nat}
    (carries : Carries instructions flow frames slot position next)
    (isNeeded : Needed instructions flow frames slot next) :
    Needed instructions flow frames slot position := by
  obtain ⟨reader, path, reads⟩ := isNeeded
  exact ⟨reader, .head carries path, reads⟩

theorem Needed.usable (isNeeded : Needed instructions flow frames slot position) :
    frames.Usable slot position := by
  obtain ⟨reader, path, isUsable, _⟩ := isNeeded
  rcases path.cases_head with rfl | ⟨next, carries, _⟩
  · exact isUsable
  · exact carries.1

/-! ## One position -/

theorem mem_save {other : Nat} {live : IndexSet} :
    slot ∈ (liveness.save frames position live).before other ↔
      slot ∈ liveness.before other ∨ other = position ∧
      position < liveness.size ∧ slot ∈ live ∧
        ∀ frame, frames.at? position = some frame → slot ∈ frame.usable := by
  simp only [before, save, Array.getD_eq_getD_getElem?, Array.getElem?_modify]
  by_cases same : other = position
  · subst same
    by_cases inBounds : other < liveness.size
    · cases frames.at? other <;> simp [inBounds]
    · simp [inBounds]
  · simp [same, Ne.symm same]

theorem size_save {live : IndexSet} :
    (liveness.save frames position live).size = liveness.size :=
  Array.size_modify

theorem size_sweepAt :
    (liveness.sweepAt instructions flow frames maxLocals position).size =
      liveness.size := by
  unfold sweepAt
  split
  · exact size_save
  · rfl

theorem mem_mark {live : IndexSet} {other : Nat} :
    slot ∈ mark maxLocals live other ↔ slot ∈ live ∨ slot = other ∧ slot < maxLocals := by
  unfold mark
  split
  next isSlot =>
    rw [IndexSet.mem_insert, or_comm]
    exact or_congr_right ⟨fun same => ⟨same, same ▸ isSlot⟩, And.left⟩
  next outside =>
    refine (or_iff_left ?_).symm
    rintro ⟨rfl, isSlot⟩
    exact outside isSlot

theorem mem_foldl_mark {sources : List Nat} {live : IndexSet} :
    slot ∈ sources.foldl (mark maxLocals) live ↔
      slot ∈ live ∨ slot ∈ sources ∧ slot < maxLocals := by
  induction sources generalizing live with
  | nil => simp
  | cons source rest ih =>
      rw [List.foldl_cons, ih, mem_mark, List.mem_cons, or_and_right, or_assoc]

theorem mem_operandSources {frame : Frame} {instruction : Instruction} :
    slot ∈ operandSources frame instruction ↔
      ∃ cell ∈ frame.stack.take instruction.stackDemand,
        cell.type ≠ some .top ∧ cell.source = some slot := by
  simp [operandSources, List.mem_filterMap]

theorem mem_transfer {frame : Frame} {instruction : Instruction} {after : IndexSet}
    (isSlot : slot < maxLocals) :
    slot ∈ transfer maxLocals frame instruction after ↔
      instruction.Reads frame slot ∨ instruction.stored? ≠ some slot ∧ slot ∈ after := by
  have consumed : slot ∈ (operandSources frame instruction).foldl (mark maxLocals) after ↔
      slot ∈ after ∨ slot ∈ operandSources frame instruction := by
    rw [mem_foldl_mark, and_iff_left isSlot]
  rw [Instruction.Reads, ← mem_operandSources]
  unfold transfer
  dsimp only
  split
  next kind other =>
    rw [mem_mark, consumed]
    simp only [Instruction.loaded?, Instruction.stored?]
    grind
  next kind other =>
    rw [IndexSet.mem_erase, consumed]
    simp only [Instruction.loaded?, Instruction.stored?]
    grind
  next notLoad notStore =>
    have loadsNone : instruction.loaded? = none := by
      unfold Instruction.loaded?
      split
      · exact (notLoad _ _ rfl).elim
      · rfl
    have storesNone : instruction.stored? = none := by
      unfold Instruction.stored?
      split
      · exact (notStore _ _ rfl).elim
      · rfl
    rw [consumed, loadsNone, storesNone]
    grind

/-- Saving live slots changes nothing, or makes a dead slot live. -/
theorem save_eq_or_dead_lt {frame : Frame} {live : IndexSet}
    (there : frames.at? position = some frame) (shaped : frame.Shaped maxLocals) :
    liveness.save frames position live = liveness ∨
      (liveness.save frames position live).dead maxLocals < liveness.dead maxLocals := by
  simp only [save, there]
  by_cases inBounds : position < liveness.size
  · obtain ⟨earlier, old, later, isOld, _, isNew⟩ := List.exists_of_modify
      (IndexSet.union · (live.inter frame.usable))
      (show position < liveness.toList.length from inBounds)
    rw [← Array.toList_inj, dead, dead, Array.toList_modify, isNew, isOld]
    have below : ∀ slot ∈ live.inter frame.usable, slot < maxLocals := by
      intro slot member
      exact shaped.lt_of_usable (IndexSet.mem_inter.mp member).2
    rcases IndexSet.union_eq_or_missingBelow_lt below with same | fewer
    · exact .inl (by rw [same])
    · exact .inr (foldr_weight_lt fewer)
  · rw [← Array.toList_inj, Array.toList_modify,
      List.modify_eq_self (Nat.le_of_not_lt inBounds)]
    exact .inl rfl

/-! ## Sweeps -/

/-- The positions are those of the instructions, and only needed slots are live. -/
structure Justified (instructions : Array Instruction) (flow : Flow) (frames : Frames)
    (liveness : Liveness) : Prop where
  size_eq : liveness.size = instructions.size
  needed {slot position : Nat} (isLive : slot ∈ liveness.before position) :
    Needed instructions flow frames slot position

section Sweeps

variable (sized : frames.size = instructions.size)
  (shaped : Query.AllFrames (Frame.Shaped maxLocals) frames)

include sized shaped

/-- Sweeping a position adds the slots that are read there, or that stay needed
afterwards. -/
theorem mem_sweepAt_iff {other : Nat} (size_eq : liveness.size = instructions.size) :
    slot ∈ (liveness.sweepAt instructions flow frames maxLocals position).before other ↔
      slot ∈ liveness.before other ∨ other = position ∧ frames.Usable slot position ∧
        (ReadAt instructions frames slot position ∨ ¬Stores instructions slot position ∧
          ∃ next ∈ flow.successors position, slot ∈ liveness.before next) := by
  cases there : frames.at? position with
  | none =>
      have notUsable : ¬frames.Usable slot position := by
        simp [Frames.Usable, Frames.localAt, there]
      simp [sweepAt, there, notUsable]
  | some frame =>
      have inBounds : position < instructions.size := sized ▸ Frames.lt_size_of_at? there
      obtain ⟨instruction, found⟩ : ∃ instruction,
          instructions[position]? = some instruction :=
        ⟨_, Array.getElem?_eq_getElem inBounds⟩
      have reads : ReadAt instructions frames slot position ↔
          instruction.Reads frame slot := by
        simp [ReadAt, there, found]
      have stores : Stores instructions slot position ↔
          instruction.stored? = some slot := by
        simp [Stores, found]
      simp only [sweepAt, there, found]
      rw [mem_save, Frames.usable_iff there, reads, stores]
      simp only [there, Option.some.injEq, forall_eq', size_eq, inBounds, true_and]
      refine or_congr_right (and_congr_right fun _ => ?_)
      rw [and_comm]
      refine and_congr_right fun isUsable => ?_
      rw [mem_transfer ((shaped position frame there).lt_of_usable isUsable),
        IndexSet.mem_foldl_union]
      simp

theorem Justified.sweepAt (justified : liveness.Justified instructions flow frames)
    (position : Nat) :
    (liveness.sweepAt instructions flow frames maxLocals position).Justified
      instructions flow frames := by
  refine ⟨size_sweepAt.trans justified.size_eq, ?_⟩
  intro slot other isLive
  rw [mem_sweepAt_iff sized shaped justified.size_eq] at isLive
  rcases isLive with wasLive | ⟨rfl, isUsable, reads | ⟨keeps, next, isNext, isLive⟩⟩
  · exact justified.needed wasLive
  · exact ⟨other, .refl, isUsable, reads⟩
  · exact .of_carries ⟨isUsable, keeps, isNext⟩ (justified.needed isLive)

theorem Justified.sweep (justified : liveness.Justified instructions flow frames) :
    (liveness.sweep instructions flow frames maxLocals).Justified instructions
      flow frames := by
  apply List.foldlRecOn (motive := Justified instructions flow frames)
  · exact justified
  · intro reached reachedJustified position _
    exact reachedJustified.sweepAt sized shaped position

theorem Justified.settle (justified : liveness.Justified instructions flow frames)
    (sweeps : Nat) :
    (settle instructions flow frames maxLocals liveness sweeps).1.Justified
      instructions flow frames := by
  fun_induction Liveness.settle instructions flow frames maxLocals liveness sweeps with
  | case1 liveness sweeps swept fewer ih => exact ih (justified.sweep sized shaped)
  | case2 liveness sweeps swept same => exact justified.sweep sized shaped

omit sized in
theorem sweepAt_eq_or_dead_lt (liveness : Liveness) (position : Nat) :
    liveness.sweepAt instructions flow frames maxLocals position = liveness ∨
      (liveness.sweepAt instructions flow frames maxLocals position).dead maxLocals <
        liveness.dead maxLocals := by
  unfold sweepAt
  split
  next there _ => exact save_eq_or_dead_lt there (shaped _ _ there)
  next => exact .inl rfl

omit sized in
/-- Sweeps end when no position has anything to add. -/
theorem sweepAt_settle (liveness : Liveness) (sweeps : Nat)
    (inBounds : position < instructions.size) :
    (settle instructions flow frames maxLocals liveness sweeps).1.sweepAt
        instructions flow frames maxLocals position =
      (settle instructions flow frames maxLocals liveness sweeps).1 := by
  fun_induction settle instructions flow frames maxLocals liveness sweeps with
  | case1 liveness sweeps swept fewer ih => exact ih
  | case2 liveness sweeps swept same =>
      rcases foldl_eq_or_lt (dead · maxLocals) (sweepAt_eq_or_dead_lt shaped)
        (List.range instructions.size).reverse liveness with ⟨unchanged, fixed⟩ | fewer
      · have isSwept : swept = liveness := unchanged
        rw [isSwept]
        exact fixed position (by simpa using inBounds)
      · exact absurd fewer same

/-- Where no position has anything to add, all needed slots are live. -/
theorem mem_of_needed (size_eq : liveness.size = instructions.size)
    (fixed : ∀ position < instructions.size,
      liveness.sweepAt instructions flow frames maxLocals position = liveness)
    (isNeeded : Needed instructions flow frames slot position) :
    slot ∈ liveness.before position := by
  have closed {position : Nat} (isUsable : frames.Usable slot position)
      (isAdded : ReadAt instructions frames slot position ∨
        ¬Stores instructions slot position ∧
        ∃ next ∈ flow.successors position, slot ∈ liveness.before next) :
      slot ∈ liveness.before position := by
    obtain ⟨frame, there⟩ := isUsable.exists_frame
    rw [← fixed position (sized ▸ Frames.lt_size_of_at? there),
      mem_sweepAt_iff sized shaped size_eq]
    exact .inr ⟨rfl, isUsable, isAdded⟩
  obtain ⟨reader, path, isUsable, reads⟩ := isNeeded
  -- The induction goes along the path, against the flow.
  induction path using Relation.ReflTransGen.head_induction_on with
  | refl => exact closed isUsable (.inl reads)
  | head carries _ isLive =>
      obtain ⟨isUsable, keeps, isNext⟩ := carries
      exact closed isUsable (.inr ⟨keeps, _, isNext, isLive⟩)

theorem justified_settle :
    (settle instructions flow frames maxLocals
      (Array.replicate instructions.size ∅) 0).1.Justified instructions flow frames := by
  have start : Justified instructions flow frames
      (Array.replicate instructions.size ∅) := by
    refine ⟨Array.size_replicate, fun {slot position} isLive => ?_⟩
    rw [before, Array.getD_eq_getD_getElem?, Array.getElem?_replicate] at isLive
    split at isLive
    · exact absurd isLive (IndexSet.mem_empty slot)
    · exact absurd isLive (IndexSet.mem_empty slot)
  exact start.settle sized shaped 0

/-- The sweeps find exactly the needed slots. -/
theorem mem_settle_iff :
    slot ∈ (settle instructions flow frames maxLocals
        (Array.replicate instructions.size ∅) 0).1.before position ↔
      Needed instructions flow frames slot position := by
  have justified : (settle instructions flow frames maxLocals
      (Array.replicate instructions.size ∅) 0).1.Justified instructions flow frames :=
    justified_settle sized shaped
  refine ⟨justified.needed, mem_of_needed sized shaped justified.size_eq ?_⟩
  intro position inBounds
  exact sweepAt_settle shaped _ 0 inBounds

end Sweeps

/-! ## Stored slots -/

/-- Before the position, the slot was stored to in the same block, and it has not been
needed since. -/
def StoredBefore (instructions : Array Instruction) (flow : Flow) (frames : Frames)
    (slot position : Nat) : Prop :=
  ∃ store < position, Stores instructions slot store ∧
    ∀ between, store < between → between < position →
      between ∉ flow.entries ∧ ¬Needed instructions flow frames slot between

theorem lingers_iff :
    Lingers instructions flow frames slot position ↔
      StoredBefore instructions flow frames slot position ∧ position ∉ flow.entries ∧
        ¬Needed instructions flow frames slot position := by
  constructor
  · rintro ⟨store, isEarlier, stores, idle⟩
    refine ⟨⟨store, isEarlier, stores, ?_⟩, idle position isEarlier (Nat.le_refl _)⟩
    intro between after before
    exact idle between after (Nat.le_of_lt before)
  · rintro ⟨⟨store, isEarlier, stores, idle⟩, here⟩
    refine ⟨store, isEarlier, stores, ?_⟩
    intro between after notAfter
    rcases Nat.lt_or_eq_of_le notAfter with before | rfl
    · exact idle between after before
    · exact here

theorem storedBefore_succ_iff :
    StoredBefore instructions flow frames slot (position + 1) ↔
      Lingers instructions flow frames slot position ∨
      Stores instructions slot position := by
  simp only [StoredBefore, Lingers, Nat.lt_succ_iff]
  constructor
  · rintro ⟨store, notLater, stores, idle⟩
    rcases Nat.lt_or_eq_of_le notLater with isEarlier | rfl
    · exact .inl ⟨store, isEarlier, stores, idle⟩
    · exact .inr stores
  · rintro (⟨store, isEarlier, stores, idle⟩ | stores)
    · exact ⟨store, Nat.le_of_lt isEarlier, stores, idle⟩
    · exact ⟨position, Nat.le_refl _, stores, fun between after notAfter => by omega⟩

theorem extendAt_spec (liveness : Liveness) (stored : IndexSet)
    (instruction : Instruction) (position : Nat) :
    ∃ idle : IndexSet,
      (∀ slot, slot ∈ idle ↔
        slot ∈ stored ∧ position ∉ flow.entries ∧ slot ∉ liveness.before position) ∧
      (extendAt flow frames maxLocals (liveness, stored) (instruction, position)).1 =
        liveness.save frames position ((liveness.before position).union idle) ∧
      ∀ slot, slot ∈ (extendAt flow frames maxLocals (liveness, stored)
          (instruction, position)).2 ↔
        slot ∈ idle ∨ instruction.stored? = some slot ∧ slot < maxLocals := by
  simp only [extendAt]
  refine ⟨(if flow.entries.contains position then ∅ else stored).diff
    (liveness.before position), ?_, ?_, ?_⟩
  · intro slot
    rw [IndexSet.mem_diff, ← and_assoc]
    apply and_congr_left'
    split
    next isEntry => simp [show position ∈ flow.entries from isEntry]
    next notEntry => simp [show position ∉ flow.entries from notEntry]
  · split <;> rfl
  · intro slot
    split
    next stored isStored => simp [mem_mark, isStored, @eq_comm _ slot]
    next isNone => simp [isNone]

/-- Up to the position, the slots that linger have been made live; from there on, only
needed slots are. -/
structure ExtendedTo (instructions : Array Instruction) (flow : Flow) (frames : Frames)
    (maxLocals position : Nat) (state : Liveness × IndexSet) : Prop where
  size_eq : state.1.size = instructions.size
  done {earlier slot : Nat} {frame : Frame} (isEarlier : earlier < position)
    (there : frames.at? earlier = some frame) :
    slot ∈ state.1.before earlier ↔ Needed instructions flow frames slot earlier ∨
      frames.Usable slot earlier ∧ Lingers instructions flow frames slot earlier
  ahead {later slot : Nat} (notEarlier : position ≤ later) :
    slot ∈ state.1.before later ↔ Needed instructions flow frames slot later
  stored {slot : Nat} :
    slot ∈ state.2 ↔ slot < maxLocals ∧
      StoredBefore instructions flow frames slot position

theorem ExtendedTo.extendAt {state : Liveness × IndexSet} {instruction : Instruction}
    (shaped : Query.AllFrames (Frame.Shaped maxLocals) frames)
    (extended : ExtendedTo instructions flow frames maxLocals position state)
    (found : instructions[position]? = some instruction) :
    ExtendedTo instructions flow frames maxLocals (position + 1)
      (extendAt flow frames maxLocals state (instruction, position)) := by
  obtain ⟨liveness, stored⟩ := state
  obtain ⟨idle, mem_idle, isSaved, mem_stored⟩ :=
    @extendAt_spec flow frames maxLocals liveness stored instruction position
  have inBounds : position < liveness.size :=
    extended.size_eq ▸ (Array.getElem?_eq_some_iff.mp found).1
  have lingers {slot : Nat} : slot ∈ idle ↔
      slot < maxLocals ∧ Lingers instructions flow frames slot position := by
    rw [mem_idle, extended.stored, extended.ahead (Nat.le_refl _), lingers_iff, and_assoc]
  constructor
  · rw [isSaved]
    exact size_save.trans extended.size_eq
  · intro earlier slot frame isEarlier there
    rw [isSaved, mem_save]
    rcases Nat.lt_or_eq_of_le (Nat.le_of_lt_succ isEarlier) with isEarlier | rfl
    · rw [extended.done isEarlier there, or_iff_left]
      rintro ⟨rfl, _⟩
      exact absurd isEarlier (Nat.lt_irrefl _)
    · rw [IndexSet.mem_union, extended.ahead (Nat.le_refl _), lingers,
        Frames.usable_iff there]
      simp only [there, Option.some.injEq, forall_eq', inBounds, true_and]
      have isSlot : slot ∈ frame.usable → slot < maxLocals :=
        (shaped earlier frame there).lt_of_usable
      tauto
  · intro later slot notEarlier
    rw [isSaved, mem_save, extended.ahead (Nat.le_of_succ_le notEarlier), or_iff_left]
    rintro ⟨rfl, _⟩
    exact absurd notEarlier (Nat.not_succ_le_self _)
  · intro slot
    have stores : Stores instructions slot position ↔
        instruction.stored? = some slot := by
      simp [Stores, found]
    rw [mem_stored, lingers, storedBefore_succ_iff, stores, and_or_left, and_comm]
    tauto

/-- Stored slots are kept alive exactly as long as they linger. -/
theorem mem_extendStored_iff {frame : Frame} (sized : frames.size = instructions.size)
    (shaped : Query.AllFrames (Frame.Shaped maxLocals) frames)
    (size_eq : liveness.size = instructions.size)
    (settled : ∀ slot position,
      slot ∈ liveness.before position ↔ Needed instructions flow frames slot position)
    (there : frames.at? position = some frame) :
    slot ∈ (liveness.extendStored instructions flow frames maxLocals).before position ↔
      Needed instructions flow frames slot position ∨
        frames.Usable slot position ∧ Lingers instructions flow frames slot position := by
  have start : ExtendedTo instructions flow frames maxLocals 0 (liveness, ∅) := by
    refine ⟨size_eq, fun isEarlier => absurd isEarlier (Nat.not_lt_zero _),
      fun _ => settled _ _, ?_⟩
    simp [StoredBefore]
  have extended : ExtendedTo instructions flow frames maxLocals instructions.size
      (instructions.toList.zipIdx.foldl (extendAt flow frames maxLocals)
          (liveness, ∅)) := by
    apply foldl_zipIdx_induction (P := ExtendedTo instructions flow frames maxLocals)
    · intro index instruction state found reached
      exact reached.extendAt shaped (by simpa using found)
    · exact start
  exact extended.done (sized ▸ Frames.lt_size_of_at? there) there

/-- The live slots are those that are needed, and those that hold a value and linger. -/
theorem mem_compute_iff {frame : Frame} (sized : frames.size = instructions.size)
    (shaped : Query.AllFrames (Frame.Shaped maxLocals) frames)
    (there : frames.at? position = some frame) :
    slot ∈ (compute instructions flow frames maxLocals).1.before position ↔
      Needed instructions flow frames slot position ∨
        frames.Usable slot position ∧ Lingers instructions flow frames slot position := by
  apply mem_extendStored_iff sized shaped _ _ there
  · exact (justified_settle sized shaped).size_eq
  · intro slot position
    exact mem_settle_iff sized shaped

theorem usable_of_mem_compute {frame : Frame} (sized : frames.size = instructions.size)
    (shaped : Query.AllFrames (Frame.Shaped maxLocals) frames)
    (there : frames.at? position = some frame)
    (isLive : slot ∈ (compute instructions flow frames maxLocals).1.before position) :
    frames.Usable slot position := by
  rw [mem_compute_iff sized shaped there] at isLive
  exact isLive.elim Needed.usable And.left

/-- A slot that is loaded is live before the load. -/
theorem mem_compute_of_load {kind : Kind} (sized : frames.size = instructions.size)
    (shaped : Query.AllFrames (Frame.Shaped maxLocals) frames)
    (found : instructions[position]? = some (.load kind slot))
    (isUsable : frames.Usable slot position) :
    slot ∈ (compute instructions flow frames maxLocals).1.before position := by
  obtain ⟨frame, there⟩ := isUsable.exists_frame
  rw [mem_compute_iff sized shaped there]
  exact .inl ⟨position, .refl, isUsable, frame, _, there, found, .inl rfl⟩

end Liveness

namespace Query

variable {hierarchy : Hierarchy}

/-- A slot is live where it is needed, and where it holds a value that was stored in the
same block and has not been needed since. -/
theorem slots_are_live_where_needed_or_lingering {body : Body} {branches completed : Flow}
    {frames : Frames} {frame : Frame} {position : Nat}
    (computed : (computeFrames body branches : Query hierarchy _).eval =
      .ok (frames, completed))
    (there : frames.at? position = some frame) (flow : Flow) (slot : Nat) :
    slot ∈ (Liveness.compute body.instructions flow frames body.code.maxLocals).1.before
      position ↔
      Liveness.Needed body.instructions flow frames slot position ∨
        frames.Usable slot position ∧
          Liveness.Lingers body.instructions flow frames slot position := by
  obtain ⟨sized, shaped⟩ := shaped_computeFrames computed
  exact Liveness.mem_compute_iff sized shaped there

/-- A method that copies its parameter to a local and never uses the copy. -/
def copyingBody : Body :=
  .plain [.base .int] 1 2 #[.load .int 0, .store .int 1, .nop, .returnVoid]

/-- Behind the store, the parameter is dead, and the copy is live because it lingers. -/
theorem copied_slot_lingers :
    ∃ branches frames completed frame,
      (computeFrames copyingBody branches : Query ⟨[]⟩ _).eval = .ok (frames, completed) ∧
      frames.at? 2 = some frame ∧
      ¬Liveness.Needed copyingBody.instructions completed frames 0 2 ∧
      ¬Liveness.Needed copyingBody.instructions completed frames 1 2 ∧
      frames.Usable 1 2 ∧ Liveness.Lingers copyingBody.instructions completed
        frames 1 2 := by
  have settled : (do
      let branches ← ofExcept (Flow.ofCode copyingBody.code)
      let (frames, completed) ← computeFrames copyingBody branches
      let needed := (Liveness.settle copyingBody.instructions completed frames 2
        (Array.replicate 4 ∅) 0).1
      let live := (Liveness.compute copyingBody.instructions completed frames 2).1
      return (frames.at? 2).map fun _ =>
        (live.isLive 2 0, live.isLive 2 1, needed.isLive 2 1) :
        Query ⟨[]⟩ _).eval = .ok (some (false, true, false)) := by
    decide +kernel
  obtain ⟨branches, _, settled⟩ := eval_bind_eq_ok.mp settled
  obtain ⟨⟨frames, completed⟩, computed, isFrame⟩ := eval_bind_eq_ok.mp settled
  obtain ⟨frame, there, described⟩ := Option.map_eq_some_iff.mp (Except.ok.inj isFrame)
  simp only [Prod.mk.injEq] at described
  obtain ⟨parameterDead, copyLive, copyIdle⟩ := described
  have copy := slots_are_live_where_needed_or_lingering computed there completed 1
  have parameter := slots_are_live_where_needed_or_lingering computed there completed 0
  obtain ⟨sized, shaped⟩ := shaped_computeFrames computed
  have copyNotNeeded : ¬Liveness.Needed copyingBody.instructions completed
      frames 1 2 := by
    rw [← Liveness.mem_settle_iff sized shaped]
    exact IndexSet.contains_eq_false.mp copyIdle
  refine ⟨branches, frames, completed, frame, computed, there, ?_, copyNotNeeded,
    (copy.mp copyLive).resolve_left copyNotNeeded⟩
  intro isNeeded
  exact IndexSet.contains_eq_false.mp parameterDead (parameter.mpr (.inl isNeeded))

end Query

end LocalTable
