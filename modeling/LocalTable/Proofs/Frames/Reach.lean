import LocalTable.Proofs.Flow.Coherence
import LocalTable.Proofs.Frames.Seeds

/-!
# Where there are frames

Computed frames keep the shape of the given ones.  Control reaches every real
instruction that has a frame: it is an entry of the flow, or the instruction
before it is reached and goes on.  Therefore it lies in a block.
-/

namespace LocalTable

variable {hierarchy : Hierarchy} {maxLocals : Nat}

/-! ## The shape of computed frames -/

namespace Frame

variable {frame next : Frame}

theorem Shaped.of_locals (shaped : frame.Shaped maxLocals)
    (same : next.locals = frame.locals) :
    next.Shaped maxLocals := by
  refine ⟨same ▸ shaped.size_eq, fun held isWide => ?_⟩
  simp only [localAt, same] at held ⊢
  exact shaped.upper held isWide

theorem Shaped.setLocal {slot : Nat} {type : ValueType} (shaped : frame.Shaped maxLocals)
    (stored : frame.setLocal slot type = .ok next) : next.Shaped maxLocals := by
  refine ⟨(setLocal_eq_ok stored).2.2.trans shaped.size_eq,
    fun {other held_type} held isWide => ?_⟩
  have localAt (other : Nat) := localAt_setLocal stored other
  rw [localAt] at held ⊢
  split at held
  next same =>
    subst same
    cases held
    rw [if_neg (Nat.succ_ne_self other), if_pos ⟨rfl, isWide⟩]
  next notSlot =>
    split at held
    next =>
      cases held
      cases isWide
    next notUpper =>
      split at held
      next => cases held
      next kept =>
        have isUpper := shaped.upper held isWide
        -- The slot behind is neither the stored one nor the lower half of a wide value.
        have notStored : other + 1 ≠ slot := by
          rintro rfl
          exact kept ⟨rfl, splitsWide_iff.mpr ⟨other, held_type, rfl, isUpper,
            held, isWide⟩⟩
        have notCleared : ¬(other + 1 + 1 = slot ∧ frame.splitsWide slot = true) := by
          rintro ⟨rfl, splits⟩
          obtain ⟨_, type, ⟨⟩, _, alsoUpper, alsoWide⟩ := splitsWide_iff.mp splits
          cases isUpper.symm.trans alsoUpper
          cases alsoWide
        rw [if_neg notStored, if_neg fun same => notSlot (Nat.succ.inj same.1),
          if_neg notCleared, isUpper]

theorem Shaped.effect {instruction : Instruction} (shaped : frame.Shaped maxLocals)
    (effect : frame.Effect instruction next) : next.Shaped maxLocals := by
  cases effect with
  | load pushed => exact shaped.of_locals (by rw [(push_eq_ok pushed).2])
  | store lowers _ stored => exact (shaped.of_locals (by rw [lowers.eq])).setLocal stored
  | increment isEmpty stored => exact shaped.setLocal stored
  | trade notLoad notStore trades => exact shaped.of_locals trades.restacks.locals_eq

end Frame

namespace Query

theorem shaped_inductive (hierarchy : Hierarchy) (instructions : Array Instruction)
    (maxLocals : Nat) : Inductive hierarchy instructions (Frame.Shaped maxLocals) where
  execute _ shaped executed := by
    obtain ⟨applied, effect, rfl⟩ := Frame.execute_eq_ok executed
    exact (shaped.effect effect).of_locals rfl
  caught shaped pushed := by
    rw [(Frame.push_eq_ok pushed).2]
    exact shaped.of_locals rfl
  join leftShaped rightShaped joins := by
    have same := leftShaped.size_eq.trans rightShaped.size_eq.symm
    refine ⟨(joins.size_eq same).trans leftShaped.size_eq,
      fun {slot type} held isWide => ?_⟩
    -- A wide value has come from both sides, with its upper half.
    have merged := joins.locals same slot
    rw [held] at merged
    obtain ⟨left, right, leftHeld, rightHeld, ⟨_, isTop⟩ | ⟨leftSame, rightSame⟩⟩ :=
      sameFamily_of_mergeTypes merged
    · rw [isTop] at isWide
      cases isWide
    · have mergedUpper := joins.locals same (slot + 1)
      rw [leftShaped.upper leftHeld (leftSame.alike.width_eq.trans isWide),
        rightShaped.upper rightHeld
          (rightSame.alike.width_eq.trans isWide)] at mergedUpper
      exact (Except.ok.inj mergedUpper).symm

/-- The frames of a method have one place for each instruction, and the right shape. -/
theorem shaped_computeFrames {body : Body} {branches completed : Flow} {frames : Frames}
    (computed : (computeFrames body branches : Query hierarchy _).eval =
      .ok (frames, completed)) :
    frames.size = body.instructions.size ∧
      AllFrames (Frame.Shaped body.code.maxLocals) frames := by
  refine ⟨?_, (shaped_inductive hierarchy _ _).allFrames_computeFrames
    (fun _ isSeeds => (Body.seeds_spec isSeeds).2.1) computed⟩
  by_cases nonempty : body.instructions.size = 0
  · obtain ⟨rfl, rfl⟩ := computeFrames_of_isEmpty nonempty computed
    exact nonempty.symm
  obtain ⟨last, size_eq, _, rfl, _⟩ := computeFrames_induction
    (P := fun reached => reached.frames.size = body.instructions.size) nonempty
    (fun _ isSeeds => (Body.seeds_spec isSeeds).1)
    (fun _ _ size_eq advances => advances.extended.2.trans size_eq) computed
  exact size_eq

/-! ## The completed flow -/

end Query

/-- What throws add to a flow lies within the bounds. -/
structure Flow.Bounds.AdmitsThrows (bounds : Flow.Bounds)
    (instructions : Array Instruction) (ranges : List ProtectedRange) : Prop where
  final_of_throw {position : Nat} {instruction : Instruction}
    (found : instructions[position]? = some instruction)
    (isThrow : instruction.isThrow = true) :
    bounds.final position
  edge_of_throw {position : Nat} {instruction : Instruction} {range : ProtectedRange}
    (found : instructions[position]? = some instruction)
    (isThrow : instruction.isThrow = true)
    (member : range ∈ ranges) (after : range.first ≤ position)
    (before : position < range.last) :
    bounds.edge position range.handler

namespace Query

/-- What a step adds to the flow are throws. -/
theorem Advances.keeps_flow {instructions : Array Instruction}
    {before after : Propagation} {P : Flow → Prop}
    (kept : ∀ flow next position thrown, position < instructions.size → P flow →
      (addThrow flow position thrown : Query hierarchy Flow).eval = .ok next → P next)
    (advances : Advances hierarchy instructions before after) (holds : P before.flow) :
    P after.flow := by
  cases advances with
  | idle => exact holds
  | carries _ found _ throws _ delivered =>
      rw [(eq_of_deliverAll delivered).1]
      cases throws with
      | quiet => exact holds
      | throws _ added =>
          exact kept _ _ _ _ (Array.getElem?_eq_some_iff.mp found).1 holds added

/-- What the computation of frames adds to the flow are throws. -/
theorem computeFrames_flow_induction {body : Body} {branches completed : Flow}
    {frames : Frames} {P : Flow → Prop} (holds : P branches)
    (kept : ∀ flow next position thrown, position < body.instructions.size → P flow →
      (addThrow flow position thrown : Query hierarchy Flow).eval = .ok next → P next)
    (computed : (computeFrames body branches : Query hierarchy _).eval =
      .ok (frames, completed)) :
    P completed := by
  by_cases nonempty : body.instructions.size = 0
  · obtain ⟨_, rfl⟩ := computeFrames_of_isEmpty nonempty computed
    exact holds
  obtain ⟨last, holdsLast, _, _, rfl⟩ := computeFrames_induction
    (P := fun reached => P reached.flow) nonempty (fun _ _ => holds)
    (fun _ _ holdsBefore advances => advances.keeps_flow kept holdsBefore) computed
  exact holdsLast

theorem withThrows_computeFrames {body : Body} {branches completed : Flow}
    {frames : Frames} (built : Flow.ofCode body.code = .ok branches)
    (computed : (computeFrames body branches : Query hierarchy _).eval =
      .ok (frames, completed)) :
    Flow.WithThrows body.code completed :=
  computeFrames_flow_induction (.ofCode built)
    (fun _ _ _ _ _ builtBefore added => .addThrow builtBefore added) computed

/-- The edges of the completed flow are known from both of their ends. -/
theorem coherent_completed {body : Body} {branches completed : Flow} {frames : Frames}
    (built : Flow.ofCode body.code = .ok branches)
    (computed : (computeFrames body branches : Query hierarchy _).eval =
      .ok (frames, completed)) :
    ∃ ranges, ((completed.protect body.instructions).closeBlocks).Coherent
      (body.instructions.size + 1) body.instructions.size ranges := by
  obtain ⟨ranges, inside, coherent⟩ :=
    Flow.coherent_ofCode (Nat.le_succ _) (Flow.leadsBelow_succ body.code) built
  have throwsCoherent : completed.Coherent _ body.instructions.size ranges :=
    computeFrames_flow_induction coherent
      (fun _ _ _ _ inBounds before added => before.addThrow inside inBounds added)
      computed
  exact ⟨ranges, (throwsCoherent.protect inside).closeBlocks.1⟩

open LocalTable.Flow in
/-- The flow of a method, with its throws, its protected ranges and its closed
blocks, keeps to all bounds that its parts keep to. -/
theorem completed_sound {bounds : Bounds} {body : Body} {branches completed : Flow}
    {frames : Frames} (admits : bounds.Admits body.code)
    (admitsThrows : bounds.AdmitsThrows body.instructions branches.ranges)
    (completes : bounds.Completes completed body.instructions)
    (built : Flow.ofCode body.code = .ok branches)
    (computed : (computeFrames body branches : Query hierarchy _).eval =
      .ok (frames, completed)) :
    ((completed.protect body.instructions).closeBlocks).Sound bounds ∧
      completed.Within (completed.protect body.instructions).closeBlocks ∧
      branches.Within completed := by
  obtain ⟨ranges, _, recorded⟩ := recorded_ofCode admits built
  have branchesSound := Grows.sound recorded.grows (unrecorded_sound ..)
  have grows : Grows bounds branches completed := by
    by_cases nonempty : body.instructions.size = 0
    · obtain ⟨_, rfl⟩ := computeFrames_of_isEmpty nonempty computed
      exact .refl
    have kept (before after : Propagation) (grows : Grows bounds branches before.flow)
        (advances : Advances hierarchy body.instructions before after) :
        Grows bounds branches after.flow := by
      cases advances with
      | idle => exact grows
      | carries _ found _ throws _ delivered =>
          rw [(eq_of_deliverAll delivered).1]
          cases throws with
          | quiet => exact grows
          | throws isThrow added =>
              refine grows.trans
                (grows_addThrow (admitsThrows.final_of_throw found isThrow) ?_ added)
              intro range member after before
              rw [(Grows.within grows branchesSound).ranges_eq] at member
              exact admitsThrows.edge_of_throw found isThrow member after before
    obtain ⟨last, grows, _, _, rfl⟩ := computeFrames_induction
      (P := fun reached => Grows bounds branches reached.flow) nonempty
        (fun _ _ => .refl) kept
      computed
    exact grows
  have completedSound := Grows.sound grows branchesSound
  have protects := grows_protect completes completedSound
  have within := Grows.within protects completedSound
  have protectedSound := Grows.sound protects completedSound
  have closes := grows_closeBlocks completes within protectedSound
  exact ⟨Grows.sound closes protectedSound,
    within.trans (Grows.within closes protectedSound), Grows.within grows branchesSound⟩

end Query

/-! ## Positions that control reaches -/

/-- Control reaches the entries of the flow, and goes on from them. -/
inductive Flow.Reaches (flow : Flow) (instructions : Array Instruction) : Nat → Prop where
  | entry {position : Nat} (isEntry : position ∈ flow.entries) :
      Reaches flow instructions position
  | next {position : Nat} {instruction : Instruction}
      (before : Reaches flow instructions position)
      (found : instructions[position]? = some instruction) (goesOn : instruction.GoesOn) :
      Reaches flow instructions (position + 1)

/-- Flows in which control stops only at instructions that do not go on. -/
def Flow.Bounds.goingOn (instructions : Array Instruction) : Flow.Bounds where
  edge _ _ := True
  final position := ∃ instruction, instructions[position]? = some instruction ∧
    ¬instruction.GoesOn

/-- What control reaches lies in a block of the completed flow. -/
theorem Flow.Reaches.inBlock {branches flow : Flow} {instructions : Array Instruction}
    {position : Nat} (reaches : branches.Reaches instructions position)
    (entries : ∀ entry ∈ branches.entries, entry ∈ flow.entries)
    (sound : flow.Sound (.goingOn instructions)) (inBounds : position < flow.size) :
    flow.InBlock position := by
  have ofEntry {position : Nat} (inBounds : position < flow.size)
      (isEntry : position ∈ flow.entries) : flow.InBlock position := by
    refine ⟨inBounds, position, isEntry, Nat.le_refl position,
      fun between after before => ?_⟩
    exact absurd before (Nat.not_lt.mpr after)
  induction reaches with
  | entry isEntry => exact ofEntry inBounds (entries _ isEntry)
  | @next position instruction _ found goesOn ih =>
      have beforeInBounds := Nat.lt_of_succ_lt inBounds
      by_cases isExit : position ∈ flow.exits
      · -- An exit that goes on has the next position among its targets.
        rcases sound.final_of_exit beforeInBounds isExit with
          ⟨other, foundOther, stops⟩ | isTarget
        · cases found.symm.trans foundOther
          exact absurd goesOn stops
        · exact ofEntry inBounds (sound.entry_of_target isTarget inBounds).1
      · obtain ⟨_, entry, isEntry, after, noExit⟩ := ih beforeInBounds
        refine ⟨inBounds, entry, isEntry, Nat.le_succ_of_le after,
          fun between first last => ?_⟩
        rcases Nat.lt_succ_iff_lt_or_eq.mp last with before | rfl
        · exact noExit between first before
        · exact isExit

namespace Query

/-- Only positions that control reaches are pending, and only these have frames,
pseudo-instructions apart. -/
structure ReachedOnly (branches : Flow) (instructions : Array Instruction)
    (propagation : Propagation) : Prop where
  extended : Extended instructions branches propagation.flow
  size_eq : propagation.frames.size = branches.size
  pending {position : Nat} (isPending : position ∈ propagation.pending) :
    branches.Reaches instructions position
  framed {position : Nat} {instruction : Instruction}
    (isFramed : (propagation.frames.at? position).isSome = true)
    (found : instructions[position]? = some instruction)
    (isReal : instruction.isPseudo = false) :
    branches.Reaches instructions position

/-- Control reaches whatever it is sent to. -/
theorem reaches_of_sends {bounds : Flow.Bounds} {branches flow : Flow}
    {instructions : Array Instruction} {position : Nat} {instruction : Instruction}
    {before : Frame} {sent : List Sent} {one : Sent} (sound : branches.Sound bounds)
    (handlers : ∀ range ∈ branches.ranges, range.handler ∈ branches.entries)
    (extended : Extended instructions branches flow)
    (found : instructions[position]? = some instruction)
    (reaches : branches.Reaches instructions position)
    (sends : Sends flow position instruction before sent) (member : one ∈ sent)
    (inBounds : one.target < branches.size) :
    branches.Reaches instructions one.target := by
  obtain ⟨frame, target⟩ := one
  cases sends.leads member with
  | receiver isReceiver =>
      unfold receivers at isReceiver
      split at isReceiver
      next jumps =>
        have isQuiet := Instruction.isThrow_of_jumps (by simpa using jumps)
        rw [extended.targets found isQuiet] at isReceiver
        exact .entry (sound.entry_of_target isReceiver inBounds).1
      next noJump =>
        split at isReceiver
        next => cases isReceiver
        next stays =>
          split at isReceiver
          next =>
            rw [List.mem_singleton.mp isReceiver]
            simp only [Bool.or_eq_true, not_or, Bool.not_eq_true] at stays
            exact .next reaches found ⟨by simpa using noJump, stays.1, stays.2⟩
          next => cases isReceiver
  | handler isReal isAround =>
      exact .entry (handlers _ (extended.ranges_eq ▸ (mem_around.mp isAround).1))

theorem ReachedOnly.advances {bounds : Flow.Bounds} {branches : Flow}
    {instructions : Array Instruction} {before after : Propagation}
    (sound : branches.Sound bounds)
    (handlers : ∀ range ∈ branches.ranges, range.handler ∈ branches.entries)
    (reached : ReachedOnly branches instructions before)
    (advances : Advances hierarchy instructions before after) :
    ReachedOnly branches instructions after := by
  have extended := reached.extended.trans advances.extended.1
  cases advances with
  | idle pending_eq =>
      refine ⟨extended, reached.size_eq, fun isPending => reached.pending ?_,
        reached.framed⟩
      rw [pending_eq]
      exact List.mem_cons_of_mem _ isPending
  | @carries position rest _ _ flow sent _ pending_eq found there throws
      sends delivered =>
      have isPending {other : Nat} (member : other ∈ position :: rest) :
          branches.Reaches instructions other :=
        reached.pending (pending_eq ▸ member)
      have flow_eq : after.flow = flow := (eq_of_deliverAll delivered).1
      have sentTo {one : Sent} (member : one ∈ sent)
          (inBounds : one.target < branches.size) :
          branches.Reaches instructions one.target :=
        reaches_of_sends sound handlers (flow_eq ▸ extended) found
          (isPending (List.mem_cons_self ..)) sends member inBounds
      refine deliverAll_induction (P := ReachedOnly branches instructions) ?_ ?_ delivered
      · refine ⟨flow_eq ▸ extended, reached.size_eq, fun member => ?_, reached.framed⟩
        exact isPending (List.mem_cons_of_mem _ member)
      · intro one member middle next reachedMiddle delivers
        refine ⟨delivers.flow_eq ▸ reachedMiddle.extended,
          delivers.size_eq.trans reachedMiddle.size_eq, fun isPending => ?_,
          fun isFramed found isReal => ?_⟩
        · rcases delivers.adds.1 isPending with isPending | ⟨rfl, inBounds⟩
          · exact reachedMiddle.pending isPending
          · exact sentTo member (reachedMiddle.size_eq ▸ inBounds)
        · rcases delivers.adds.2 isFramed with isFramed | ⟨rfl, inBounds⟩
          · exact reachedMiddle.framed isFramed found isReal
          · exact sentTo member (reachedMiddle.size_eq ▸ inBounds)

/-- Nothing but instructions that do not go on stops control. -/
theorem goingOn_completes {code : Code} {branches completed : Flow}
    (built : Flow.ofCode code = .ok branches)
    (extended : Extended code.instructions branches completed) :
    (Flow.Bounds.goingOn code.instructions).Completes completed code.instructions := by
  obtain ⟨ranges, resolved, recorded⟩ :=
    Flow.recorded_ofCode (Flow.unlimited_admits _) built
  have within := Flow.Grows.within recorded.grows (Flow.unrecorded_sound ..)
  refine ⟨extended.size_eq.trans recorded.size_eq, fun _ _ _ _ _ => .intro, ?_,
    fun _ => .intro⟩
  -- A protected range ends at a label, which is no real instruction.
  intro range instruction member found isReal
  rw [extended.ranges_eq, within.ranges_eq, Flow.ranges_unrecorded] at member
  obtain ⟨handler, _, isRange⟩ := (mapM_eq_ok resolved).2 range member
  have isLabel := Code.getElem?_of_position? (Flow.rangeOf_eq_ok.mp isRange).2.1
  cases isLabel.symm.trans found
  cases isReal

/-- A real instruction with a frame lies in a block of the completed flow. -/
theorem inBlock_of_frame {body : Body} {branches completed : Flow} {frames : Frames}
    {position : Nat} {instruction : Instruction} {frame : Frame}
    (built : Flow.ofCode body.code = .ok branches)
    (computed : (computeFrames body branches : Query hierarchy _).eval =
      .ok (frames, completed))
    (found : body.instructions[position]? = some instruction)
    (isReal : instruction.isPseudo = false) (there : frames.at? position = some frame) :
    ((completed.protect body.instructions).closeBlocks).InBlock position := by
  have admits : (Flow.Bounds.goingOn body.instructions).Admits body.code := by
    refine ⟨?_, ?_, fun _ _ _ _ => .intro⟩
    · intro position instruction found isReturn
      exact ⟨instruction, found, fun goesOn =>
        Bool.noConfusion (isReturn.symm.trans goesOn.noReturn)⟩
    · intro position instruction found jumps
      exact ⟨instruction, found, fun goesOn => jumps goesOn.noJump⟩
  have admitsThrows :
      (Flow.Bounds.goingOn body.instructions).AdmitsThrows body.instructions
          branches.ranges := by
    refine ⟨?_, fun _ _ _ _ _ => .intro⟩
    intro position instruction found isThrow
    exact ⟨instruction, found, fun goesOn =>
      Bool.noConfusion (isThrow.symm.trans goesOn.noThrow)⟩
  obtain ⟨_, _, recorded⟩ := Flow.recorded_ofCode (Flow.unlimited_admits _) built
  have branchesSound := Flow.Grows.sound recorded.grows (Flow.unrecorded_sound ..)
  obtain ⟨enters, handlers⟩ := Flow.entries_ofCode built
  have inBounds : position < body.instructions.size :=
    (Array.getElem?_eq_some_iff.mp found).1
  have nonempty : body.instructions.size ≠ 0 := Nat.ne_zero_of_lt inBounds
  have start (seeds : Frames) (isSeeds : body.seeds = .ok seeds) :
      ReachedOnly branches body.instructions (.start branches seeds) := by
    obtain ⟨size_eq, _, sites⟩ := Body.seeds_spec isSeeds
    refine ⟨.refl _, size_eq.trans recorded.size_eq.symm, fun isPending => ?_,
      fun isFramed found isReal => ?_⟩
    · exact .entry (IndexSet.mem_toList.mp (List.mem_of_mem_filter isPending))
    · rcases sites _ _ isFramed found with rfl | isPseudo
      · exact .entry (enters nonempty)
      · cases isReal.symm.trans isPseudo
  obtain ⟨last, reached, _, rfl, rfl⟩ := computeFrames_induction nonempty start
    (fun _ _ reached advances => reached.advances branchesSound handlers advances)
    computed
  obtain ⟨sound, within, withinBranches⟩ := completed_sound admits admitsThrows
    (goingOn_completes built reached.extended) built computed
  have reaches :=
    reached.framed (Option.isSome_iff_exists.mpr ⟨frame, there⟩) found isReal
  apply reaches.inBlock
  · exact fun entry isEntry => within.entries (withinBranches.entries isEntry)
  · exact sound
  · rw [within.size_eq, withinBranches.size_eq, recorded.size_eq]
    exact inBounds

end Query

end LocalTable
