import Mathlib.Data.List.Permutation
import LocalTable.Proofs.Scope

/-!
# Scopes that do not overlap

A scope that stretches over another one is split into runs of consecutive
positions.  Splitting keeps a cover, and after it the scopes of a slot do not
overlap.  So the scopes of a method describe its variables exactly.
-/

namespace LocalTable.Scope

variable {flow : Flow} {frames : Frames} {maxLocals : Nat}

/-! ## Splitting -/

/-- Runs keep all positions in their order. -/
theorem flatMap_runs (positions : List Nat) :
    (runs positions).flatMap (fun run => run.1 :: run.2) = positions := by
  induction positions with
  | nil => rfl
  | cons position rest ih =>
      unfold runs
      split
      next none =>
        rw [none] at ih
        rw [← ih]
        rfl
      next next others following some =>
        rw [some] at ih
        rw [← ih]
        split <;> rfl

/-- The positions of a run are consecutive. -/
theorem mem_run_iff {positions : List Nat} {run : Nat × List Nat}
    (member : run ∈ runs positions) {position : Nat} :
    position ∈ run.1 :: run.2 ↔ run.1 ≤ position ∧ position ≤ run.2.getLastD run.1 := by
  induction positions generalizing run position with
  | nil => cases member
  | cons first rest ih =>
      unfold runs at member
      have single {position : Nat} :
          position ∈ [first] ↔ first ≤ position ∧
              position ≤ ([] : List Nat).getLastD first := by
        rw [List.mem_singleton, List.getLastD_nil, Nat.le_antisymm_iff, and_comm]
      split at member
      next =>
        rw [List.mem_singleton.mp member]
        exact single
      next next others following isRuns =>
        have inRest := @ih
        rw [isRuns] at inRest
        split at member
        next consecutive =>
          rcases List.mem_cons.mp member with rfl | member
          · have tail {position : Nat} : position ∈ next :: others ↔
                next ≤ position ∧ position ≤ others.getLastD next :=
              @inRest (next, others) (List.mem_cons_self ..) position
            have nonempty : next ≤ others.getLastD next :=
              (tail.mp (List.mem_cons_self ..)).2
            rw [List.mem_cons, tail, List.getLastD_cons]
            omega
          · exact inRest (List.mem_cons_of_mem _ member)
        next =>
          rcases List.mem_cons.mp member with rfl | member
          · exact single
          · exact inRest member

/-- Two scopes of one slot do not overlap. -/
def Apart (left right : Scope) : Prop :=
  left.slot = right.slot → left.last < right.first ∨ right.last < left.first

/-- The positions of the scope are consecutive. -/
def IsRun (scope : Scope) : Prop :=
  ∀ position, scope.first ≤ position → position ≤ scope.last → position ∈ scope.positions

/-- The scope is a part of the other one. -/
structure PartOf (part whole : Scope) : Prop where
  slot_eq : part.slot = whole.slot
  type_eq : part.type = whole.type
  positions {position : Nat} (member : position ∈ part.positions) :
    position ∈ whole.positions

theorem pairwise_runs (scope : Scope) :
    (∀ run ∈ runs scope.positions.toList, (run.1 :: run.2).Pairwise (· < ·)) ∧
      (runs scope.positions.toList).Pairwise fun left right =>
        ∀ before ∈ left.1 :: left.2, ∀ after ∈ right.1 :: right.2, before < after := by
  rw [← List.pairwise_flatMap, flatMap_runs]
  exact scope.positions.pairwise_toList

theorem mem_split {scope piece : Scope} (member : piece ∈ scope.split) :
    ∃ run ∈ runs scope.positions.toList, piece =
      ofRun scope.slot scope.type run.1 run.2 := by
  obtain ⟨run, inRuns, isPiece⟩ := List.mem_map.mp member
  exact ⟨run, inRuns, isPiece.symm⟩

theorem partOf_of_mem_split {scope piece : Scope} (member : piece ∈ scope.split) :
    piece.PartOf scope := by
  obtain ⟨run, inRuns, rfl⟩ := mem_split member
  refine ⟨rfl, rfl, fun {position} isPosition => ?_⟩
  rw [← IndexSet.mem_toList, ← flatMap_runs scope.positions.toList, List.mem_flatMap]
  exact ⟨run, inRuns, mem_positions_ofRun.mp isPosition⟩

theorem isRun_of_mem_split {scope piece : Scope} (member : piece ∈ scope.split) :
    piece.IsRun := by
  obtain ⟨run, inRuns, rfl⟩ := mem_split member
  intro position after before
  exact mem_positions_ofRun.mpr ((mem_run_iff inRuns).mpr ⟨after, before⟩)

theorem Sound.of_mem_split {scope piece : Scope} (sound : scope.Sound flow frames)
    (member : piece ∈ scope.split) : piece.Sound flow frames := by
  have part := partOf_of_mem_split member
  obtain ⟨run, inRuns, rfl⟩ := mem_split member
  obtain ⟨isLeast, isGreatest⟩ := @ends_ofRun scope.slot run.1 scope.type run.2
    ((pairwise_runs scope).1 run inRuns)
  exact ⟨isLeast, isGreatest, fun isPosition => sound.inBlock (part.positions isPosition),
    fun isPosition => sound.typed (part.positions isPosition)⟩

theorem exists_mem_split {scope : Scope} {position : Nat}
    (member : position ∈ scope.positions) :
    ∃ piece ∈ scope.split, position ∈ piece.positions := by
  rw [← IndexSet.mem_toList, ← flatMap_runs scope.positions.toList,
    List.mem_flatMap] at member
  obtain ⟨run, inRuns, inRun⟩ := member
  exact ⟨_, List.mem_map_of_mem inRuns, mem_positions_ofRun.mpr inRun⟩

theorem pairwise_split (scope : Scope) : scope.split.Pairwise Apart := by
  rw [split, List.pairwise_map]
  apply (pairwise_runs scope).2.imp
  intro left right ordered _
  exact .inl (ordered _ List.getLastD_mem_cons _ (List.mem_cons_self ..))

/-- What becomes of the scope at an index. -/
def pieces (scopes : List Scope) (scope : Scope) (index : Nat) : List Scope :=
  if isCrossed scopes scope index then scope.split else [scope]

theorem separate_eq (scopes : List Scope) :
    separate scopes = scopes.zipIdx.flatMap fun (scope, index) =>
      pieces scopes scope index := rfl

section Pieces

variable {scopes : List Scope} {scope piece : Scope} {index : Nat}

theorem partOf_of_mem_pieces (member : piece ∈ pieces scopes scope index) :
    piece.PartOf scope := by
  unfold pieces at member
  split at member
  · exact partOf_of_mem_split member
  · rw [List.mem_singleton.mp member]
    exact ⟨rfl, rfl, id⟩

theorem Sound.of_mem_pieces (sound : scope.Sound flow frames)
    (member : piece ∈ pieces scopes scope index) : piece.Sound flow frames := by
  unfold pieces at member
  split at member
  · exact sound.of_mem_split member
  · rw [List.mem_singleton.mp member]
    exact sound

theorem exists_mem_pieces {position : Nat} (member : position ∈ scope.positions) :
    ∃ piece ∈ pieces scopes scope index, position ∈ piece.positions := by
  unfold pieces
  split
  · exact exists_mem_split member
  · exact ⟨scope, List.mem_singleton_self scope, member⟩

/-- The pieces of scopes that overlap are runs. -/
theorem isRun_of_mem_pieces {other : Scope} {otherIndex : Nat}
    (inScopes : (other, otherIndex) ∈ scopes.zipIdx) (different : otherIndex ≠ index)
    (overlap : scope.overlaps other = true) (member : piece ∈ pieces scopes scope index) :
    piece.IsRun := by
  have crossed : isCrossed scopes scope index = true :=
    List.any_eq_true.mpr ⟨(other, otherIndex), inScopes, by simp [different, overlap]⟩
  rw [pieces, if_pos crossed] at member
  exact isRun_of_mem_split member

end Pieces

theorem overlaps_iff {left right : Scope} :
    left.overlaps right = true ↔
      left.slot = right.slot ∧ left.first ≤ right.last ∧ right.first ≤ left.last := by
  simp [overlaps, and_assoc]

/-- Pieces of different scopes of a cover do not overlap.  If their scopes do, the
pieces are runs, and two runs overlap only if they have a position in common. -/
theorem apart_of_mem_pieces {scopes : List Scope}
    {left right leftPiece rightPiece : Scope} {leftIndex rightIndex : Nat}
    (leftSound : left.Sound flow frames) (rightSound : right.Sound flow frames)
    (inLeft : (left, leftIndex) ∈ scopes.zipIdx)
    (inRight : (right, rightIndex) ∈ scopes.zipIdx) (different : leftIndex ≠ rightIndex)
    (disjoint : ∀ slot position,
      ¬(left.holds slot position = true ∧ right.holds slot position = true))
    (leftMember : leftPiece ∈ pieces scopes left leftIndex)
    (rightMember : rightPiece ∈ pieces scopes right rightIndex) :
    Apart leftPiece rightPiece := by
  intro sameSlot
  have leftPart := partOf_of_mem_pieces leftMember
  have rightPart := partOf_of_mem_pieces rightMember
  have leftPieceSound := leftSound.of_mem_pieces leftMember
  have rightPieceSound := rightSound.of_mem_pieces rightMember
  by_contra overlap
  rw [not_or, Nat.not_lt, Nat.not_lt] at overlap
  obtain ⟨rightBegins, leftBegins⟩ := overlap
  have slots : left.slot = right.slot := by
    rw [← leftPart.slot_eq, sameSlot, rightPart.slot_eq]
  have wholes : left.first ≤ right.last ∧ right.first ≤ left.last :=
    ⟨(leftSound.isLeast.2 (leftPart.positions leftPieceSound.isLeast.1)).trans <|
        leftBegins.trans (rightSound.isGreatest.2
          (rightPart.positions rightPieceSound.isGreatest.1)),
      (rightSound.isLeast.2 (rightPart.positions rightPieceSound.isLeast.1)).trans <|
        rightBegins.trans (leftSound.isGreatest.2
          (leftPart.positions leftPieceSound.isGreatest.1))⟩
  have leftRun := isRun_of_mem_pieces inRight different.symm
    (overlaps_iff.mpr ⟨slots, wholes⟩) leftMember
  have rightRun := isRun_of_mem_pieces inLeft different
    (overlaps_iff.mpr ⟨slots.symm, wholes.symm⟩) rightMember
  -- Both runs reach the later one of their first positions.
  let shared := max leftPiece.first rightPiece.first
  have inLeftPiece : shared ∈ leftPiece.positions :=
    leftRun shared (Nat.le_max_left ..)
      (Nat.max_le.mpr ⟨leftPieceSound.isGreatest.2 leftPieceSound.isLeast.1, rightBegins⟩)
  have inRightPiece : shared ∈ rightPiece.positions :=
    rightRun shared (Nat.le_max_right ..)
      (Nat.max_le.mpr ⟨leftBegins,
        rightPieceSound.isGreatest.2 rightPieceSound.isLeast.1⟩)
  exact disjoint left.slot shared ⟨holds_iff.mpr ⟨rfl, leftPart.positions inLeftPiece⟩,
    holds_iff.mpr ⟨slots.symm, rightPart.positions inRightPiece⟩⟩

theorem IsCover.disjoint {scopes : List Scope} (cover : IsCover flow frames scopes) :
    scopes.Pairwise fun left right => ∀ slot position,
      ¬(left.holds slot position = true ∧ right.holds slot position = true) := by
  rw [List.pairwise_iff_getElem]
  intro first second firstBound secondBound before slot position
  have unique := countP_le_one.mp (cover.unique slot position)
  exact List.pairwise_iff_getElem.mp unique first second firstBound secondBound before

/-- After splitting, no two scopes of a slot overlap. -/
theorem IsCover.pairwise_separate {scopes : List Scope}
    (cover : IsCover flow frames scopes) :
    (separate scopes).Pairwise Apart := by
  rw [separate_eq, List.pairwise_flatMap]
  constructor
  · rintro ⟨scope, index⟩ _
    simp only [pieces]
    split
    · exact pairwise_split scope
    · exact List.pairwise_singleton ..
  · have ascending : scopes.zipIdx.Pairwise fun left right => left.2 < right.2 := by
      rw [← List.pairwise_map, List.zipIdx_map_snd]
      exact List.pairwise_lt_range'
    have disjoint : scopes.zipIdx.Pairwise fun left right => ∀ slot position,
        ¬(left.1.holds slot position = true ∧ right.1.holds slot position = true) := by
      rw [← @List.pairwise_map _ _ Prod.fst fun left right : Scope => ∀ slot position,
        ¬(left.holds slot position = true ∧ right.holds slot position = true),
          List.zipIdx_map_fst]
      exact cover.disjoint
    refine (ascending.and disjoint).imp_of_mem ?_
    rintro ⟨left, leftIndex⟩ ⟨right, rightIndex⟩ inLeft inRight ⟨before, disjoint⟩
      leftPiece leftMember rightPiece rightMember
    exact apart_of_mem_pieces (cover.sound (List.fst_mem_of_mem_zipIdx inLeft))
      (cover.sound (List.fst_mem_of_mem_zipIdx inRight)) inLeft inRight
        (Nat.ne_of_lt before)
      disjoint leftMember rightMember

theorem IsCover.separate {scopes : List Scope} (cover : IsCover flow frames scopes) :
    IsCover flow frames (separate scopes) := by
  have sound {piece : Scope} (member : piece ∈ Scope.separate scopes) :
      piece.Sound flow frames := by
    rw [separate_eq] at member
    obtain ⟨⟨scope, index⟩, inScopes, member⟩ := List.mem_flatMap.mp member
    exact (cover.sound (List.fst_mem_of_mem_zipIdx inScopes)).of_mem_pieces member
  refine ⟨sound, fun slot position => ?_, fun {slot position} inBlock hasType => ?_⟩
  · rw [countP_le_one]
    refine cover.pairwise_separate.imp_of_mem ?_
    intro left right inLeft inRight apart both
    simp only [holds_iff] at both
    obtain ⟨⟨rfl, leftPosition⟩, sameSlot, rightPosition⟩ := both
    rcases apart sameSlot.symm with before | after
    · exact absurd (before.trans_le ((sound inRight).isLeast.2 rightPosition))
        (Nat.not_lt.mpr ((sound inLeft).isGreatest.2 leftPosition))
    · exact absurd (after.trans_le ((sound inLeft).isLeast.2 leftPosition))
        (Nat.not_lt.mpr ((sound inRight).isGreatest.2 rightPosition))
  · obtain ⟨scope, inScopes, holds⟩ :=
      List.countP_pos_iff.mp (cover.total inBlock hasType)
    obtain ⟨rfl, isPosition⟩ := holds_iff.mp holds
    obtain ⟨index, inBounds, isScope⟩ := List.mem_iff_getElem.mp inScopes
    have inIndexed : (scope, index) ∈ scopes.zipIdx :=
      List.mk_mem_zipIdx_iff_getElem?.mpr
        (List.getElem?_eq_some_iff.mpr ⟨inBounds, isScope⟩)
    obtain ⟨piece, isPiece, atPosition⟩ :=
      @exists_mem_pieces scopes scope index position isPosition
    refine List.countP_pos_iff.mpr ⟨piece, ?_, ?_⟩
    · rw [separate_eq]
      exact List.mem_flatMap.mpr ⟨(scope, index), inIndexed, isPiece⟩
    · exact holds_iff.mpr ⟨(partOf_of_mem_pieces isPiece).slot_eq, atPosition⟩

/-! ## All scopes of a method -/

theorem isCover_build (closed : flow.Closed) (sized : frames.size = flow.size)
    (below : SlotsBelow frames maxLocals) :
    IsCover flow frames (build flow frames maxLocals) :=
  (isCover_merged closed sized below).separate.perm (List.mergeSort_perm _ _).symm

theorem pairwise_build (closed : flow.Closed) (sized : frames.size = flow.size)
    (below : SlotsBelow frames maxLocals) :
    (build flow frames maxLocals).Pairwise Apart := by
  have symmetric {left right : Scope} (apart : Apart left right) : Apart right left :=
    fun sameSlot => (apart sameSlot.symm).symm
  exact ((List.mergeSort_perm _ _).pairwise_iff symmetric).mpr
    (isCover_merged closed sized below).pairwise_separate

theorem precedes_iff {left right : Scope} :
    precedes left right = true ↔
      left.slot < right.slot ∨ left.slot = right.slot ∧ left.first ≤ right.first := by
  simp [precedes]

theorem sorted_build (flow : Flow) (frames : Frames) (maxLocals : Nat) :
    (build flow frames maxLocals).Pairwise fun left right =>
      precedes left right = true := by
  apply List.pairwise_mergeSort
  · intro first second third
    simp only [precedes_iff]
    omega
  · intro left right
    simp only [Bool.or_eq_true, precedes_iff]
    omega

theorem slotsBelow_of_size
    (fits : ∀ position frame, frames.at? position = some frame →
      frame.locals.size ≤ maxLocals) :
    SlotsBelow frames maxLocals := by
  intro position slot hasType
  obtain ⟨type, hasType⟩ := Option.isSome_iff_exists.mp hasType
  obtain ⟨frame, atPosition, inSlot⟩ :=
    Option.bind_eq_some_iff.mp (typeAt_eq_some.mp hasType).1
  rw [Frame.localAt, Array.getD_eq_getD_getElem?] at inSlot
  by_contra outside
  rw [Array.getElem?_eq_none
    ((fits position frame atPosition).trans (Nat.le_of_not_lt outside))] at inSlot
  cases inSlot

/-- The scopes describe the variables in the frames of a flow exactly. -/
structure IsExactCover (flow : Flow) (frames : Frames) (scopes : List Scope) : Prop where
  /-- A slot that holds a value in a block has exactly one scope there. -/
  exactlyOne {position slot : Nat} {type : ValueType} (inBlock : flow.InBlock position)
    (held : frames.localAt position slot = some type) (usable : type ≠ .top) :
    ∃ scope, scopes.filter (fun scope => scope.slot = slot && scope.existsAt position) =
      [scope] ∧
      (type = scope.type ∨ type = .null ∧ scope.type.isReference = true)
  /-- A scope exists at such positions only. -/
  onlyUsable {scope : Scope} {position : Nat} (member : scope ∈ scopes)
    (there : scope.existsAt position = true) :
    flow.InBlock position ∧ ∃ type, frames.localAt position scope.slot = some type ∧
      type ≠ .top
  /-- A scope begins and ends at the least and the greatest of its positions. -/
  ends {scope : Scope} (member : scope ∈ scopes) :
    IsLeast {position | scope.existsAt position = true} scope.first ∧
      IsGreatest {position | scope.existsAt position = true} scope.last
  /-- Scopes of one slot do not overlap. -/
  apart : scopes.Pairwise fun left right =>
    left.slot = right.slot → left.last < right.first ∨ right.last < left.first
  /-- Scopes are in the order of slots and first positions. -/
  sorted : scopes.Pairwise fun left right =>
    left.slot < right.slot ∨ left.slot = right.slot ∧ left.first ≤ right.first

theorem isExactCover_build (closed : flow.Closed) (sized : frames.size = flow.size)
    (below : SlotsBelow frames maxLocals) :
    IsExactCover flow frames (build flow frames maxLocals) := by
  have cover := isCover_build closed sized below
  refine ⟨fun {position slot type} inBlock held usable => ?_,
    fun {scope position} member there => ?_, fun {scope} member =>
      ⟨(cover.sound member).isLeast, (cover.sound member).isGreatest⟩,
    pairwise_build closed sized below,
      (sorted_build flow frames maxLocals).imp precedes_iff.mp⟩
  · have hasType : typeAt frames position slot = some type :=
      typeAt_eq_some.mpr ⟨held, usable⟩
    have one : (build flow frames maxLocals).countP (holds slot position) = 1 :=
      Nat.le_antisymm (cover.unique slot position)
        (cover.total inBlock (Option.isSome_iff_exists.mpr ⟨type, hasType⟩))
    rw [List.countP_eq_length_filter] at one
    obtain ⟨scope, isOnly⟩ := List.length_eq_one_iff.mp one
    have inFilter : scope ∈ (build flow frames maxLocals).filter (holds slot position) :=
      isOnly ▸ List.mem_singleton_self scope
    obtain ⟨member, holds⟩ := List.mem_filter.mp inFilter
    obtain ⟨rfl, isPosition⟩ := holds_iff.mp holds
    obtain ⟨other, hasOther, fits⟩ := (cover.sound member).typed isPosition
    cases hasType.symm.trans hasOther
    exact ⟨scope, isOnly, fits⟩
  · obtain ⟨type, hasType, _⟩ := (cover.sound member).typed there
    exact ⟨(cover.sound member).inBlock there, type, typeAt_eq_some.mp hasType⟩

/-- Whatever throws are recorded in the flow of a method, the scopes built from its
completed flow and any frames describe the variables exactly. -/
theorem build_describes_variables {code : Code} (built : Flow.WithThrows code flow)
    (sized : frames.size = code.instructions.size)
    (fits : ∀ position frame, frames.at? position = some frame →
      frame.locals.size = maxLocals) :
    let completed := (flow.protect code.instructions).closeBlocks
    IsExactCover completed frames (build completed frames maxLocals) := by
  obtain ⟨closed, size_eq⟩ := built.closed
  exact isExactCover_build closed (sized.trans size_eq.symm)
    (slotsBelow_of_size fun position frame there =>
      Nat.le_of_eq (fits position frame there))

/-- A branch over two instructions that use a slot for something else. -/
def crossedCode : Code :=
  { maxStack := 1
    maxLocals := 1
    instructions := #[.branchZero .eq ⟨0⟩, .nop, .nop, .label ⟨0⟩, .returnVoid]
    handlers := []
    table := none }

/-- The slot of `crossedCode` holds an `int` before the branch and behind its target. -/
def crossedFrames : Frames :=
  #[.int, .float, .float, .int, .int].map fun type =>
    some { Frame.empty 1 1 with locals := #[some type] }

/-- The variable before the branch is the one behind its target, but its scope is
split, since another variable is in the slot in between. -/
theorem build_describes_crossed_variables :
    ∃ flow, Flow.WithThrows crossedCode flow ∧
      crossedFrames.size = crossedCode.instructions.size ∧
      let completed := (flow.protect crossedCode.instructions).closeBlocks
      IsExactCover completed crossedFrames (build completed crossedFrames 1) ∧
        (build completed crossedFrames 1).map
          (fun scope => (scope.type, scope.first, scope.last)) =
          [(.int, 0, 0), (.float, 1, 2), (.int, 3, 4)] := by
  have built : Flow.ofCode crossedCode = .ok
      { entries := ⟨11⟩
        exits := ⟨17⟩
        targets := #[[1, 3], [], [], [], []]
        sources := #[[], [0], [], [0], []]
        ranges := [] } := rfl
  have sized : crossedFrames.size = crossedCode.instructions.size := by
    simp [crossedFrames, crossedCode]
  refine ⟨_, .ofCode built, sized,
    build_describes_variables (.ofCode built) sized ?_, by cbv⟩
  intro position frame there
  rw [Frames.at?, Array.getD_eq_getD_getElem?, crossedFrames, Array.getElem?_map] at there
  cases found : (#[.int, .float, .float, .int, .int] : Array ValueType)[position]? with
  | none =>
      rw [found] at there
      cases there
  | some type =>
      rw [found] at there
      cases there
      rfl

end LocalTable.Scope
