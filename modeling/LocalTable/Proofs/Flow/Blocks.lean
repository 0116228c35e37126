import LocalTable.Proofs.Flow.Completion

/-!
# Blocks of a flow

A position lies in the block of an entry if control gets there from the entry
without passing an exit.  Once blocks are closed, every entry follows an exit.
Then blocks are disjoint: a position lies in the block of one entry at most.
-/

namespace LocalTable.Flow

variable {bounds : Bounds} {flow next : Flow}

/-- Control that enters at the entry can go on to the position. -/
def InBlockOf (flow : Flow) (entry position : Nat) : Prop :=
  entry ≤ position ∧ ∀ between, entry ≤ between → between < position →
    between ∉ flow.exits

/-- The position lies in a block, which reaches from an entry up to the first
exit. -/
def InBlock (flow : Flow) (position : Nat) : Prop :=
  position < flow.size ∧ ∃ entry ∈ flow.entries, flow.InBlockOf entry position

/-- A block ends before every entry. -/
def Closed (flow : Flow) : Prop :=
  ∀ position, position + 1 < flow.size → position + 1 ∈ flow.entries →
    position ∈ flow.exits

/-- Blocks of different entries have no position in common. -/
theorem Closed.entry_unique (closed : flow.Closed) {left right position : Nat}
    (inBounds : position < flow.size) (leftEntry : left ∈ flow.entries)
    (rightEntry : right ∈ flow.entries) (inLeft : flow.InBlockOf left position)
    (inRight : flow.InBlockOf right position) : left = right := by
  -- An entry inside the block of another one would follow an exit inside that block.
  have notBefore {first second : Nat} (isEntry : second ∈ flow.entries)
      (inFirst : flow.InBlockOf first position)
      (inSecond : flow.InBlockOf second position) :
      ¬first < second := by
    intro before
    obtain ⟨previous, rfl⟩ := Nat.exists_eq_add_one_of_ne_zero (Nat.ne_zero_of_lt before)
    have isExit := closed previous (Nat.lt_of_le_of_lt inSecond.1 inBounds) isEntry
    exact inFirst.2 previous (Nat.le_of_lt_succ before) inSecond.1 isExit
  exact Nat.le_antisymm (Nat.le_of_not_lt (notBefore leftEntry inRight inLeft))
    (Nat.le_of_not_lt (notBefore rightEntry inLeft inRight))

/-! ## Closing blocks -/

theorem mem_entries_close {position other : Nat} :
    other ∈ (closeBlocks.close flow position).entries ↔ other ∈ flow.entries := by
  unfold closeBlocks.close
  split
  next opens =>
    simp only [Bool.and_eq_true] at opens
    rw [mem_entries_jump, List.mem_singleton]
    constructor
    · rintro (isEntry | ⟨rfl, _⟩)
      · exact isEntry
      · exact opens.1.2
    · exact .inl
  next => rfl

theorem mem_exits_close {position : Nat} (sound : flow.Sound bounds)
    (isEntry : position + 1 ∈ flow.entries) :
    position ∈ (closeBlocks.close flow position).exits := by
  unfold closeBlocks.close
  split
  next =>
    rw [exits_jump]
    exact IndexSet.mem_insert.mpr (.inl rfl)
  next stays =>
    by_contra notExit
    have noTarget : flow.targetsOf position = [] := by
      by_contra hasTarget
      exact notExit (sound.exit_of_target hasTarget)
    apply stays
    simp only [Bool.and_eq_true, Bool.not_eq_true', IndexSet.contains_eq_false, noTarget,
      List.isEmpty_nil, and_true]
    exact ⟨notExit, isEntry⟩

/-- Nothing is beyond no bounds. -/
theorem unlimited_completes {instructions : Array Instruction}
    (size_eq : flow.size = instructions.size) :
    Bounds.unlimited.Completes flow instructions :=
  ⟨size_eq, fun _ _ _ _ _ => .intro, fun _ _ _ => .intro, fun _ => .intro⟩

theorem unlimited_admits (code : Code) : Bounds.unlimited.Admits code :=
  ⟨fun _ _ => .intro, fun _ _ => .intro, fun _ _ _ _ => .intro⟩

/-- Control enters a method at its first instruction and at its handlers. -/
theorem entries_ofCode {code : Code} (built : ofCode code = .ok flow) :
    (code.instructions.size ≠ 0 → 0 ∈ flow.entries) ∧
      ∀ range ∈ flow.ranges, range.handler ∈ flow.entries := by
  obtain ⟨ranges, _, recorded⟩ := recorded_ofCode (unlimited_admits _) built
  have within := Grows.within recorded.grows (unrecorded_sound ..)
  constructor
  · intro nonempty
    exact within.entries ((mem_entries_unrecorded ..).mpr (.inl ⟨rfl, nonempty⟩))
  · intro range member
    rw [within.ranges_eq, ranges_unrecorded] at member
    exact within.entries ((mem_entries_unrecorded ..).mpr (.inr ⟨range, member, rfl⟩))

/-- Closing the blocks of a flow ends a block before every entry. -/
theorem closed_closeBlocks {instructions : Array Instruction}
    (completes : bounds.Completes flow instructions) (sound : flow.Sound bounds) :
    flow.closeBlocks.Closed := by
  -- After going through some positions, all of these are closed.
  have closing (count : Nat) :
      let reached := (List.range count).foldl closeBlocks.close flow
      Grows bounds flow reached ∧
        (∀ position, position ∈ reached.entries ↔ position ∈ flow.entries) ∧
        ∀ position < count, position + 1 ∈ flow.entries → position ∈ reached.exits := by
    induction count with
    | zero =>
        exact ⟨.refl, fun _ => .rfl, fun _ impossible =>
          absurd impossible (Nat.not_lt_zero _)⟩
    | succ count ih =>
        obtain ⟨grows, entries, exits⟩ := ih
        simp only [List.range_succ, List.foldl_append, List.foldl_cons, List.foldl_nil]
        have reachedSound := Grows.sound grows sound
        have step := grows_close completes (Grows.within grows sound) count
        refine ⟨grows.trans step, fun position =>
          mem_entries_close.trans (entries position), ?_⟩
        intro position before isEntry
        rcases Nat.lt_succ_iff_lt_or_eq.mp before with before | rfl
        · exact (Grows.within step reachedSound).exits (exits position before isEntry)
        · exact mem_exits_close reachedSound ((entries _).mpr isEntry)
  obtain ⟨grows, entries, exits⟩ := closing (flow.size - 1)
  intro position inBounds isEntry
  have size_eq : flow.closeBlocks.size = flow.size := (Grows.within grows sound).size_eq
  exact exits position (by omega) ((entries _).mp isEntry)

/-! ## Flows with throws -/

/-- Flows that arise from the code of a method by recording any throws. -/
inductive WithThrows (code : Code) : Flow → Prop where
  | ofCode {flow : Flow} (built : ofCode code = .ok flow) : WithThrows code flow
  | addThrow {hierarchy : Hierarchy} {flow next : Flow} {position : Nat}
      {thrown : Option ValueType} (before : WithThrows code flow)
      (added : (Query.addThrow flow position thrown : Query hierarchy Flow).eval =
        .ok next) :
      WithThrows code next

theorem WithThrows.sound {code : Code} (built : WithThrows code flow) :
    flow.Sound .unlimited ∧ flow.size = code.instructions.size := by
  induction built with
  | ofCode built =>
      obtain ⟨ranges, _, recorded⟩ := recorded_ofCode (unlimited_admits code) built
      exact ⟨Grows.sound recorded.grows (unrecorded_sound ..), recorded.size_eq⟩
  | addThrow before added ih =>
      have grows : Grows .unlimited _ _ :=
        grows_addThrow .intro (fun _ _ _ _ => .intro) added
      exact ⟨Grows.sound grows ih.1, (Grows.within grows ih.1).size_eq.trans ih.2⟩

/-- Protected ranges and closed blocks keep edges and entries in order. -/
theorem WithThrows.completed_sound {code : Code} (built : WithThrows code flow) :
    ((flow.protect code.instructions).closeBlocks).Sound .unlimited ∧
      ((flow.protect code.instructions).closeBlocks).size = code.instructions.size := by
  obtain ⟨sound, size_eq⟩ := built.sound
  have completes := unlimited_completes size_eq
  have grows := grows_protect completes sound
  have within := Grows.within grows sound
  have protectedSound := Grows.sound grows sound
  have closing := grows_closeBlocks completes within protectedSound
  refine ⟨Grows.sound closing protectedSound, ?_⟩
  rw [(Grows.within closing protectedSound).size_eq, within.size_eq, size_eq]

theorem WithThrows.closed {code : Code} (built : WithThrows code flow) :
    ((flow.protect code.instructions).closeBlocks).Closed ∧
      ((flow.protect code.instructions).closeBlocks).size = code.instructions.size := by
  obtain ⟨sound, size_eq⟩ := built.sound
  have grows := grows_protect (unlimited_completes size_eq) sound
  have within := Grows.within grows sound
  exact ⟨closed_closeBlocks (unlimited_completes (within.size_eq.trans size_eq))
    (Grows.sound grows sound), built.completed_sound.2⟩

end LocalTable.Flow
