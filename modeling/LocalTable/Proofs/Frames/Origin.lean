import LocalTable.Proofs.Frames.Fixpoint
import LocalTable.Proofs.Frames.Reach
import LocalTable.Proofs.Refine.Rules

/-!
# Where the values of cells come from

A cell that remembers a local got its value from a load of this local.  Without
snapshots, a walk against the flow that follows such a cell passes only frames in
which the cell is there, with the same local and a type of the same family, until it
comes to the load.  So stores are never sought for an operand of one family and found
for a value of another one.
-/

namespace LocalTable

variable {hierarchy : Hierarchy}

/-! ## Cells with an origin -/

/-- What is known of the origin of the upper cell holds for the lower one. -/
def Cell.SubOrigin (lower upper : Cell) : Prop :=
  upper.source.isSome = true → lower.source = upper.source ∧
    ∀ type, upper.type = some type → ∃ before, lower.type = some before ∧
      before.SameFamily type

namespace Frame

/-- What is known of the origins of cells in the upper frame holds in the lower one. -/
def SubOrigin (lower upper : Frame) : Prop :=
  List.Forall₂ Cell.SubOrigin lower.stack upper.stack

/-- At the height of the stack there is a value that was loaded from a local, and its
type is of the family of the given one. -/
def LoadedAt (frame : Frame) (height : Nat) (type : ValueType) : Prop :=
  ∃ above cell held, above + height = frame.depth ∧ frame.stack[above]? = some cell ∧
    cell.source.isSome = true ∧ cell.type = some held ∧ held.SameFamily type

variable {frame lower upper after : Frame} {height : Nat} {type : ValueType}

theorem LoadedAt.of_subOrigin (below : lower.SubOrigin upper)
    (loaded : upper.LoadedAt height type) : lower.LoadedAt height type := by
  obtain ⟨above, cell, held, height_eq, isCell, hasSource, isHeld, same⟩ := loaded
  obtain ⟨inBounds, isCell⟩ := List.getElem?_eq_some_iff.mp isCell
  have length_eq : lower.stack.length = upper.stack.length := below.length_eq
  have lowerInBounds : above < lower.stack.length := length_eq ▸ inBounds
  have known := below.get lowerInBounds inBounds
  rw [List.get_eq_getElem, List.get_eq_getElem, isCell] at known
  obtain ⟨source_eq, types⟩ := known hasSource
  obtain ⟨before, isBefore, beforeSame⟩ := types held isHeld
  exact ⟨above, lower.stack[above], before, height_eq.trans length_eq.symm,
    List.getElem?_eq_getElem lowerInBounds, source_eq ▸ hasSource, isBefore,
    beforeSame.trans same⟩

theorem LoadedAt.of_stack (same : after.stack = frame.stack)
    (loaded : after.LoadedAt height type) :
    frame.LoadedAt height type := by
  obtain ⟨above, cell, held, height_eq, isCell, rest⟩ := loaded
  rw [depth, same] at height_eq
  exact ⟨above, cell, held, height_eq, same ▸ isCell, rest⟩

/-- A value that comes from a local was not pushed by an instruction that loads none. -/
theorem LoadedAt.of_restacks (restacks : frame.Restacks after)
    (loaded : after.LoadedAt height type) : frame.LoadedAt height type := by
  obtain ⟨above, cell, held, height_eq, isCell, hasSource, rest⟩ := loaded
  obtain ⟨count, pushed, bound, stack_eq, anonymous⟩ := restacks.stack_eq
  rw [depth, stack_eq, List.length_append, List.length_drop] at height_eq
  rw [stack_eq] at isCell
  rcases Nat.lt_or_ge above pushed.length with isPushed | isBelow
  · rw [List.getElem?_append_left isPushed] at isCell
    rw [anonymous cell (List.mem_of_getElem? isCell)] at hasSource
    cases hasSource
  · rw [List.getElem?_append_right isBelow, List.getElem?_drop] at isCell
    refine ⟨count + (above - pushed.length), cell, held, ?_, isCell, hasSource, rest⟩
    rw [depth]
    omega

/-- A value that comes from a local has been there before the instruction, or the
instruction has just loaded it. -/
theorem LoadedAt.of_effect {instruction : Instruction}
    (effect : frame.Effect instruction after) (loaded : after.LoadedAt height type) :
    frame.LoadedAt height type ∨ frame.depth < height ∧ ∀ kind slot,
      instruction = .load kind slot → frame.depth + 1 = height →
      ((frame.localAt slot).getD kind.assumed).SameFamily type := by
  cases effect with
  | store lowers _ stored =>
      refine .inl (.of_restacks (.lowers lowers) (loaded.of_stack ?_))
      rw [(setLocal_eq_ok stored).2.1]
  | increment isEmpty stored =>
      refine .inl (loaded.of_stack ?_)
      rw [(setLocal_eq_ok stored).2.1]
  | trade notLoad notStore trades => exact .inl (.of_restacks trades.restacks loaded)
  | @load kind slot _ pushed =>
      obtain ⟨above, cell, held, height_eq, isCell, hasSource, isHeld, same⟩ := loaded
      obtain ⟨upper, stack_eq⟩ : ∃ upper, after.stack =
          upper ++ ⟨some ((frame.localAt slot).getD kind.assumed), some slot⟩ ::
              frame.stack :=
        ⟨_, by rw [(push_eq_ok pushed).2]⟩
      rw [depth, stack_eq, List.length_append, List.length_cons, ← depth] at height_eq
      rw [stack_eq] at isCell
      -- The value is the upper half of the loaded one, this one itself, or lies below.
      rcases Nat.lt_trichotomy above upper.length with isUpper | isLoaded | isBelow
      · exact .inr ⟨by omega, fun _ _ _ isTop => by omega⟩
      · refine .inr ⟨by omega, ?_⟩
        rintro _ _ ⟨⟩ _
        rw [isLoaded, List.getElem?_append_right (Nat.le_refl _), Nat.sub_self] at isCell
        cases isCell
        cases isHeld
        exact same
      · obtain ⟨rest, rfl⟩ := Nat.exists_eq_add_of_lt isBelow
        rw [List.getElem?_append_right (by omega),
          show upper.length + rest + 1 - upper.length = rest + 1 by omega] at isCell
        exact .inl ⟨rest, cell, held, by omega, isCell, hasSource, isHeld, same⟩

/-- A cell that remembers a local has a type. -/
def Typed (frame : Frame) : Prop :=
  ∀ cell ∈ frame.stack, cell.source.isSome = true → cell.type.isSome = true

theorem Typed.of_stack (typed : frame.Typed) (same : after.stack = frame.stack) :
    after.Typed := by
  intro cell member
  exact typed cell (same ▸ member)

theorem Typed.of_restacks (typed : frame.Typed) (restacks : frame.Restacks after) :
    after.Typed := by
  intro cell member hasSource
  obtain ⟨count, pushed, _, stack_eq, anonymous⟩ := restacks.stack_eq
  rw [stack_eq] at member
  rcases List.mem_append.mp member with isPushed | isKept
  · rw [anonymous cell isPushed] at hasSource
    cases hasSource
  · exact typed cell (List.mem_of_mem_drop isKept) hasSource

theorem Typed.effect {instruction : Instruction} (typed : frame.Typed)
    (effect : frame.Effect instruction after) : after.Typed := by
  cases effect with
  | load pushed =>
      intro cell member hasSource
      rw [(push_eq_ok pushed).2] at member
      rcases List.mem_append.mp member with isUpper | member
      · split at isUpper
        · rw [List.mem_singleton.mp isUpper]
          rfl
        · cases isUpper
      · rcases List.mem_cons.mp member with rfl | isKept
        · rfl
        · exact typed cell isKept hasSource
  | store lowers _ stored =>
      refine (typed.of_restacks (.lowers lowers)).of_stack ?_
      rw [(setLocal_eq_ok stored).2.1]
  | increment isEmpty stored =>
      refine typed.of_stack ?_
      rw [(setLocal_eq_ok stored).2.1]
  | trade notLoad notStore trades => exact typed.of_restacks trades.restacks

/-- At the start of a method the stack is empty. -/
theorem stack_entryFrame {body : Body} {entry : Frame}
    (entered : body.entryFrame = .ok entry) :
    entry.stack = [] := by
  unfold Body.entryFrame at entered
  split at entered
  next frame isEntry =>
    cases entered
    refine entry_induction (P := fun entry => entry.stack = []) rfl ?_
      (fun _ _ => id) isEntry
    intro before next slot type _ isEmpty stored
    rw [(setLocal_eq_ok stored).2.1]
    exact isEmpty
  next => cases entered

end Frame

theorem Cell.SubOrigin.trans {left middle right : Cell} (first : left.SubOrigin middle)
    (second : middle.SubOrigin right) : left.SubOrigin right := by
  intro hasSource
  obtain ⟨source_eq, types⟩ := second hasSource
  obtain ⟨earlierSource, earlierTypes⟩ := first (source_eq ▸ hasSource)
  refine ⟨earlierSource.trans source_eq, fun type isType => ?_⟩
  obtain ⟨before, isBefore, same⟩ := types type isType
  obtain ⟨earlier, isEarlier, earlierSame⟩ := earlierTypes before isBefore
  exact ⟨earlier, isEarlier, earlierSame.trans same⟩

namespace Query

/-- A joined cell has an origin only if both cells have this one, and types of one
family. -/
theorem subOrigin_of_joinsCells {seeded : Bool} {left right merged : Cell}
    (joins : JoinsCells hierarchy seeded left right merged) :
    left.SubOrigin merged ∧ right.SubOrigin merged := by
  obtain ⟨answered, source_eq⟩ := joins
  have both (hasSource : merged.source.isSome = true) :
      (left.source = merged.source ∧ right.source = merged.source) ∧
      ∀ type, merged.type = some type → ∃ leftType rightType, left.type = some leftType ∧
        right.type = some rightType ∧ leftType.SameFamily type ∧
            rightType.SameFamily type := by
    rw [source_eq, mergedSource] at hasSource
    rw [source_eq, mergedSource]
    split at hasSource
    next => cases hasSource
    next isValue =>
      split at hasSource
      next same =>
        rw [if_neg isValue, if_pos same]
        refine ⟨⟨rfl, same.symm⟩, fun type isType => ?_⟩
        rw [isType] at answered isValue
        obtain ⟨leftType, rightType, isLeft, isRight, ⟨_, isTop⟩ | sameFamily⟩ :=
          sameFamily_of_mergeTypes answered
        · exact absurd (.inr (congrArg some isTop)) isValue
        · exact ⟨leftType, rightType, isLeft, isRight, sameFamily⟩
      next => cases hasSource
  constructor
  · intro hasSource
    obtain ⟨⟨same, _⟩, types⟩ := both hasSource
    refine ⟨same, fun type isType => ?_⟩
    obtain ⟨leftType, _, isLeft, _, sameFamily, _⟩ := types type isType
    exact ⟨leftType, isLeft, sameFamily⟩
  · intro hasSource
    obtain ⟨⟨_, same⟩, types⟩ := both hasSource
    refine ⟨same, fun type isType => ?_⟩
    obtain ⟨_, rightType, _, isRight, _, sameFamily⟩ := types type isType
    exact ⟨rightType, isRight, sameFamily⟩

theorem subOrigin_climbs (hierarchy : Hierarchy) : Climbs hierarchy Frame.SubOrigin where
  refl _ :=
    List.forall₂_same.mpr fun _ _ _ =>
      ⟨rfl, fun type isType => ⟨type, isType, .refl type⟩⟩
  trans first second :=
    Hierarchy.forall₂_trans (R := Cell.SubOrigin) (fun _ _ _ => .trans) first second
  join _ _ joins := joins.stack fun _ _ _ => subOrigin_of_joinsCells

theorem typed_inductive (hierarchy : Hierarchy) (instructions : Array Instruction) :
    Inductive hierarchy instructions Frame.Typed where
  execute _ typed executed := by
    obtain ⟨applied, effect, rfl⟩ := Frame.execute_eq_ok executed
    exact (typed.effect effect).of_stack rfl
  caught typed pushed := (typed.of_restacks (.clearStack _)).of_restacks (.push pushed)
  join _ _ joins cell member hasSource := by
    obtain ⟨left, _, right, _, _, source_eq⟩ := joins.cells member
    rw [source_eq, mergedSource] at hasSource
    split at hasSource
    next => cases hasSource
    next isValue =>
      exact Option.isSome_iff_ne_none.mpr fun isNone => isValue (.inl isNone)

theorem typed_computeFrames {body : Body} {branches completed : Flow} {frames : Frames}
    (plain : ∀ snapshot, .snapshot snapshot ∉ body.instructions)
    (computed : (computeFrames body branches : Query hierarchy _).eval =
      .ok (frames, completed)) :
    AllFrames Frame.Typed frames := by
  refine (typed_inductive hierarchy _).allFrames_computeFrames
    (fun seeds isSeeds => ?_) computed
  obtain ⟨entry, isEntry, rfl⟩ := seeds_eq_ok plain isSeeds
  intro position frame there cell member
  rw [(Frames.eq_of_at?_put_replicate there).2, Frame.stack_entryFrame isEntry] at member
  cases member

/-! ## Senders -/

variable {flow : Flow} {position target : Nat} {instruction : Instruction}
  {before : Frame} {sent : List Sent}

/-- Whatever control leads to is sent the frame after the instruction, or a frame
without any loaded value. -/
theorem Leads.exists_sent (leads : Leads flow position instruction target)
    (sends : Sends flow position instruction before sent)
    (computed : before.seeded = false) :
    ∃ one ∈ sent, one.target = target ∧
      (before.execute position instruction = .ok one.frame ∨
        ∀ height type, ¬one.frame.LoadedAt height type) := by
  cases sends with
  | pseudo isPseudo =>
      cases leads with
      | receiver isReceiver =>
          exact ⟨⟨before, target⟩, List.mem_map.mpr ⟨target, isReceiver, rfl⟩, rfl,
            .inl (Frame.execute_of_isPseudo computed isPseudo position)⟩
      | handler isReal => cases isPseudo.symm.trans isReal
  | @real after caught isReal executed handlers =>
      cases leads with
      | receiver isReceiver =>
          exact ⟨⟨after, target⟩,
            List.mem_append_left _ (List.mem_map.mpr ⟨target, isReceiver, rfl⟩), rfl,
              .inl executed⟩
      | handler _ isAround =>
          obtain ⟨one, isOne, toHandler, pushed⟩ := exists_of_mem_left handlers isAround
          refine ⟨one, List.mem_append_right _ isOne, toHandler,
            .inr fun height type loaded => ?_⟩
          obtain ⟨_, _, _, _, isCell, _⟩ := loaded.of_restacks (.push pushed)
          cases isCell

/-- Control leads to every frame but the first one, from a position that has a frame. -/
def AllLed (instructions : Array Instruction) (flow : Flow) (frames : Frames) : Prop :=
  ∀ target, (frames.at? target).isSome = true → target = 0 ∨ ∃ source instruction,
    instructions[source]? = some instruction ∧ (frames.at? source).isSome = true ∧
      Leads flow source instruction target

theorem AllLed.advances {instructions : Array Instruction} {branches : Flow}
    {before after : Propagation} (extended : Extended instructions branches before.flow)
    (led : AllLed instructions branches before.frames)
    (advances : Advances hierarchy instructions before after) :
    AllLed instructions branches after.frames := by
  have extendedAfter := extended.trans advances.extended.1
  cases advances with
  | idle => exact led
  | @carries position _ instruction _ flow _ _ _ found there _ sends delivered =>
      have flow_eq : after.flow = flow := (eq_of_deliverAll delivered).1
      refine (deliverAll_induction (P := fun reached =>
        AllLed instructions branches reached.frames ∧
          (reached.frames.at? position).isSome = true) ?_ ?_ delivered).1
      · exact ⟨led, Option.isSome_iff_exists.mpr ⟨_, there⟩⟩
      · intro one member middle next ⟨middleLed, middleFramed⟩ delivers
        refine ⟨fun target isFramed => ?_, delivers.framed middleFramed⟩
        rcases delivers.adds.2 isFramed with isFramed | ⟨rfl, _⟩
        · refine (middleLed target isFramed).imp_right ?_
          rintro ⟨source, other, foundOther, sourceFramed, leads⟩
          exact ⟨source, other, foundOther, delivers.framed sourceFramed, leads⟩
        · have leads := sends.leads member
          rw [← flow_eq] at leads
          exact .inr ⟨position, instruction, found, delivers.framed middleFramed,
            (Leads.of_extended extendedAfter found).mp leads⟩

theorem allLed_computeFrames {body : Body} {branches completed : Flow} {frames : Frames}
    (plain : ∀ snapshot, .snapshot snapshot ∉ body.instructions)
    (computed : (computeFrames body branches : Query hierarchy _).eval =
      .ok (frames, completed)) :
    AllLed body.instructions branches frames := by
  by_cases nonempty : body.instructions.size = 0
  · obtain ⟨rfl, _⟩ := computeFrames_of_isEmpty nonempty computed
    exact nofun
  have start (seeds : Frames) (isSeeds : body.seeds = .ok seeds) :
      Extended body.instructions branches branches ∧
          AllLed body.instructions branches seeds := by
    obtain ⟨entry, _, rfl⟩ := seeds_eq_ok plain isSeeds
    refine ⟨.refl _, fun target isFramed => .inl ?_⟩
    obtain ⟨frame, there⟩ := Option.isSome_iff_exists.mp isFramed
    exact (Frames.eq_of_at?_put_replicate there).1
  obtain ⟨last, ⟨_, led⟩, _, rfl, _⟩ := computeFrames_induction
    (P := fun reached => Extended body.instructions branches reached.flow ∧
      AllLed body.instructions branches reached.frames) nonempty start
    (fun _ _ ⟨extended, led⟩ advances =>
      ⟨extended.trans advances.extended.1, led.advances extended advances⟩) computed
  exact led

/-! ## The flow that walks follow -/

end Query

/-- Flows whose edges out of framed positions are taken by control. -/
def Flow.Bounds.leading (instructions : Array Instruction) (frames : Frames)
    (flow : Flow) :
    Flow.Bounds where
  edge source target := ∀ instruction, instructions[source]? = some instruction →
    (frames.at? source).isSome = true → target < instructions.size →
    Query.Leads flow source instruction target
  final _ := True

namespace Query

section Plain

variable {body : Body} {branches completed : Flow} {frames : Frames} {source : Nat}
  (plain : ∀ snapshot, .snapshot snapshot ∉ body.instructions)
  (fixpoint : Fixpoint Frame.SubOrigin body branches completed frames)
  (built : Flow.ofCode body.code = .ok branches)
  (computed : (computeFrames body branches : Query hierarchy _).eval =
    .ok (frames, completed))

include fixpoint built

theorem leading_admits :
    (Flow.Bounds.leading body.instructions frames completed).Admits body.code := by
  obtain ⟨ranges, _, recorded⟩ := Flow.recorded_ofCode (Flow.unlimited_admits _) built
  refine ⟨fun _ _ => .intro, fun _ _ => .intro, ?_⟩
  intro position instruction targets found resolved target member other foundOther _ _
  cases found.symm.trans foundOther
  have jumps : instruction.jumpTargets ≠ [] := by
    rcases (Flow.mem_destinations resolved).mp member with
      ⟨label, isLabel, _⟩ | ⟨conditional, _⟩
    · exact List.ne_nil_of_mem isLabel
    · obtain ⟨label, isLabel⟩ := Instruction.exists_jumpTarget conditional
      exact List.ne_nil_of_mem isLabel
  have inBounds : position < body.code.instructions.size :=
    (Array.getElem?_eq_some_iff.mp found).1
  cases resolved.symm.trans (recorded.targets inBounds found jumps)
  refine .receiver ?_
  rw [receivers, if_pos (by simpa using jumps),
    fixpoint.extended.targets found (Instruction.isThrow_of_jumps jumps)]
  exact member

omit built in
theorem leading_admitsThrows :
    (Flow.Bounds.leading body.instructions frames completed).AdmitsThrows
      body.instructions branches.ranges := by
  refine ⟨fun _ _ => .intro, ?_⟩
  intro position instruction range found isThrow member after before other foundOther _ _
  cases found.symm.trans foundOther
  have isAround : range ∈ around completed position :=
    mem_around.mpr ⟨fixpoint.extended.ranges_eq ▸ member, after, Nat.le_of_lt before⟩
  exact .handler (Instruction.isPseudo_of_isThrow isThrow) isAround

theorem leading_completes :
    (Flow.Bounds.leading body.instructions frames completed).Completes completed
      body.instructions := by
  obtain ⟨ranges, _, recorded⟩ := Flow.recorded_ofCode (Flow.unlimited_admits _) built
  have extended := fixpoint.extended
  have size_eq : completed.size = body.instructions.size :=
    extended.size_eq.trans recorded.size_eq
  refine ⟨size_eq, ?_, fun _ _ _ => .intro, ?_⟩
  · intro range position instruction member found isReal after before other foundOther _ _
    cases found.symm.trans foundOther
    exact .handler isReal (mem_around.mpr ⟨member, after, before⟩)
  · intro position goesOn instruction found isFramed inBounds
    -- Jumps, returns and throws that have been carried on are exits.
    have positionInBounds : position < body.code.instructions.size :=
      (Array.getElem?_eq_some_iff.mp found).1
    have stays : ¬(instruction.jumpTargets ≠ [] ∨ instruction.isReturn = true) :=
      fun leaves => goesOn (extended.exits (recorded.exits positionInBounds found leaves))
    obtain ⟨frame, there⟩ := Option.isSome_iff_exists.mp isFramed
    have noThrow : instruction.isThrow ≠ true :=
      fun isThrow => goesOn ((fixpoint.carried found there).exit_of_throw isThrow)
    simp only [not_or, Decidable.not_not, Bool.not_eq_true] at stays noThrow
    refine .receiver ?_
    simp [receivers, stays, noThrow, size_eq, inBounds]

include computed

/-- Control takes every edge of the completed flow that leaves a framed position. -/
theorem leading_sound :
    ((completed.protect body.instructions).closeBlocks).Sound
      (.leading body.instructions frames completed) :=
  (completed_sound (leading_admits fixpoint built) (leading_admitsThrows fixpoint)
    (leading_completes fixpoint built) built computed).1

omit fixpoint in
/-- A position to which control does not simply go on is an entry and has an edge. -/
theorem entry_of_leads {instruction : Instruction}
    (found : body.instructions[source]? = some instruction)
    (leads : Leads completed source instruction target)
    (inBounds : target < body.instructions.size) (isElsewhere : source + 1 ≠ target) :
    target ∈ ((completed.protect body.instructions).closeBlocks).entries ∧
      ((completed.protect body.instructions).closeBlocks).sourcesOf target ≠ [] := by
  obtain ⟨completedSound, size_eq⟩ := (withThrows_computeFrames built computed).sound
  have completes : Flow.Bounds.unlimited.Completes completed body.instructions :=
    Flow.unlimited_completes size_eq
  obtain ⟨_, within, withinBranches⟩ := completed_sound (Flow.unlimited_admits _)
    ⟨fun _ _ => .intro, fun _ _ _ _ _ => .intro⟩ completes built computed
  cases leads with
  | receiver isReceiver =>
      unfold receivers at isReceiver
      split at isReceiver
      next =>
        obtain ⟨isEntry, isSource⟩ :=
          completedSound.entry_of_target isReceiver (size_eq ▸ inBounds)
        exact ⟨within.entries isEntry, List.ne_nil_of_mem (within.sources isSource)⟩
      next =>
        split at isReceiver
        next => cases isReceiver
        next =>
          split at isReceiver
          next => exact absurd (List.mem_singleton.mp isReceiver).symm isElsewhere
          next => cases isReceiver
  | @handler range isReal isAround =>
      obtain ⟨member, after, before⟩ := mem_around.mp isAround
      have isEntry := (Flow.entries_ofCode built).2 range
        (withinBranches.ranges_eq ▸ member)
      refine ⟨within.entries (withinBranches.entries isEntry), ?_⟩
      have protects := Flow.grows_protect completes completedSound
      have protectedSound := Flow.Grows.sound protects completedSound
      have closedWithin := Flow.Grows.within (Flow.grows_closeBlocks completes
        (Flow.Grows.within protects completedSound) protectedSound) protectedSound
      have hasSource := Flow.sourcesOf_protect_ne_nil completes completedSound member
        (size_eq ▸ inBounds) found isReal after before
      obtain ⟨first, isFirst⟩ := List.exists_mem_of_ne_nil _ hasSource
      exact List.ne_nil_of_mem (closedWithin.sources isFirst)

include plain

/-- Control leads from the predecessors of a position to it. -/
theorem leads_of_predecessor {instruction : Instruction}
    (found : body.instructions[source]? = some instruction)
    (sourceFramed : (frames.at? source).isSome = true)
    (targetFramed : (frames.at? target).isSome = true)
    (isBefore : source ∈ ((completed.protect body.instructions).closeBlocks).predecessors
      target) :
    Leads completed source instruction target := by
  obtain ⟨_, targetThere⟩ := Option.isSome_iff_exists.mp targetFramed
  have inBounds : target < body.instructions.size :=
    fixpoint.size_eq ▸ Frames.lt_size_of_at? targetThere
  rcases Flow.mem_predecessors.mp isBefore with isSource | ⟨noSource, isNext⟩
  · exact (leading_sound fixpoint built computed).edge_of_source isSource
      instruction found sourceFramed inBounds
  · -- The position has a frame but no edge, so control went on from the one before.
    rcases allLed_computeFrames plain computed _ targetFramed with
      isZero | ⟨sender, other, foundOther, _, leadsBefore⟩
    · cases isNext.trans isZero
    · have leads := (Leads.of_extended fixpoint.extended foundOther).mpr leadsBefore
      have alsoNext : sender + 1 = target := by
        by_contra isElsewhere
        exact (entry_of_leads built computed foundOther leads inBounds isElsewhere).2
          noSource
      cases Nat.succ.inj (isNext.trans alsoNext.symm)
      cases found.symm.trans foundOther
      exact leads

/-! ## Walks find what was loaded -/

/-- A loaded value was there after each instruction before. -/
theorem loadedAt_of_predecessor {height : Nat} {type : ValueType} {frame before : Frame}
    {instruction : Instruction}
    (there : frames.at? target = some frame) (loaded : frame.LoadedAt height type)
    (isBefore :
      source ∈ ((completed.protect body.instructions).closeBlocks).predecessors target)
    (thereBefore : frames.at? source = some before)
    (found : body.instructions[source]? = some instruction) :
    ∃ after, before.execute source instruction = .ok after ∧
      after.LoadedAt height type := by
  have leads := leads_of_predecessor plain fixpoint built computed found
    (Option.isSome_iff_exists.mpr ⟨before, thereBefore⟩)
    (Option.isSome_iff_exists.mpr ⟨frame, there⟩) isBefore
  obtain ⟨sent, sends, received⟩ := (fixpoint.carried found thereBefore).sends
  obtain ⟨one, member, toTarget, isSent⟩ :=
    leads.exists_sent sends (fixpoint.computed _ _ thereBefore).seeded_eq
  obtain ⟨held, isHeld, below⟩ :=
    received one member (toTarget ▸ Frames.lt_size_of_at? there)
  cases there.symm.trans (toTarget ▸ isHeld)
  have loadedSent := loaded.of_subOrigin below
  rcases isSent with executed | nothing
  · exact ⟨one.frame, executed, loadedSent⟩
  · exact absurd loadedSent (nothing height type)

/-- A walk that follows a loaded value comes only to positions after which it is
there.  The lowest cell of the value is at the level. -/
theorem loadedAt_of_behind {width height level : Nat} {type : ValueType}
    {frame before : Frame} {instruction : Instruction}
    (level_eq : level + width = height + 1) (isWide : 0 < width)
    (there : frames.at? position = some frame) (loaded : frame.LoadedAt level type)
    (behind : (Scene.ofBody body (completed.protect body.instructions).closeBlocks).Behind
      frames width height position source)
    (thereBefore : frames.at? source = some before)
    (found : body.instructions[source]? = some instruction) :
    ∃ after, before.execute source instruction = .ok after ∧
      after.LoadedAt level type := by
  induction behind generalizing before instruction with
  | before isBefore =>
      exact loadedAt_of_predecessor plain fixpoint built computed there loaded
        isBefore thereBefore found
  | @further middle source middleFrame middleInstruction _ middleThere middleFound
      stays isBefore ih =>
      obtain ⟨after, executed, loadedAfter⟩ := ih middleThere middleFound
      -- The stack is too high for the value to have been loaded just now.
      have loadedMiddle : middleFrame.LoadedAt level type := by
        rcases stays with isHigh | ⟨_, isPseudo⟩
        · obtain ⟨applied, effect, rfl⟩ := Frame.execute_eq_ok executed
          have loadedApplied : applied.LoadedAt level type := loadedAfter.of_stack rfl
          rcases loadedApplied.of_effect effect with loadedMiddle | ⟨isLow, _⟩
          · exact loadedMiddle
          · omega
        · have seeded_eq := (fixpoint.computed _ _ middleThere).seeded_eq
          cases executed.symm.trans (Frame.execute_of_isPseudo seeded_eq isPseudo middle)
          exact loadedAfter
      exact loadedAt_of_predecessor plain fixpoint built computed middleThere
        loadedMiddle isBefore thereBefore found

end Plain

/-! ## Operands -/

/-- Without snapshots, an operand for which stores are found has a type that is kin to
theirs. -/
theorem tracesKin_of_plain {K : ValueType → ValueType → Prop}
    (kinship : ValueType.Kinship K) (body : Body) {branches completed : Flow}
    {frames : Frames} (plain : ∀ snapshot, .snapshot snapshot ∉ body.instructions)
    (built : Flow.ofCode body.code = .ok branches)
    (computed : (computeFrames body branches : Query hierarchy _).eval =
      .ok (frames, completed))
    (position above : Nat) (expected : ValueType) :
    (Scene.ofBody body (completed.protect body.instructions).closeBlocks).TracesKin
      K frames position above expected := by
  intro frame cell there peeked hasSource loadedFrom
  have fixpoint :=
    (subOrigin_climbs hierarchy).fixpoint plain (Flow.entries_ofCode built).1 computed
  have isWide : 0 < expected.width := by
    rcases expected.width_eq_one_or_two with width_eq | width_eq <;> omega
  obtain ⟨below, distance_eq⟩ := Nat.exists_eq_succ_of_ne_zero
    (Nat.ne_of_gt (Nat.lt_of_lt_of_le isWide (Nat.le_add_left _ above)))
  rw [distance_eq] at peeked
  have inBounds : below < frame.depth := (List.getElem?_eq_some_iff.mp peeked).1
  obtain ⟨type, isType⟩ := Option.isSome_iff_exists.mp
    (typed_computeFrames plain computed position frame there cell
      (List.mem_of_getElem? peeked) hasSource)
  refine ⟨type, isType, ?_⟩
  -- The operand has its lowest cell at this level.
  have loaded : frame.LoadedAt (frame.depth - below) type :=
    ⟨below, cell, type, Nat.add_sub_cancel' (Nat.le_of_lt inBounds), peeked,
      hasSource, isType, .refl type⟩
  obtain ⟨source, before, kind, slot, held, behind, thereBefore, height_eq, found,
      isHeld, kin⟩ :=
    loadedFrom
  obtain ⟨after, executed, loadedAfter⟩ :=
    loadedAt_of_behind plain fixpoint built computed
    (by omega) isWide there loaded behind thereBefore found
  obtain ⟨applied, effect, rfl⟩ := Frame.execute_eq_ok executed
  have loadedApplied : applied.LoadedAt (frame.depth - below) type :=
    loadedAfter.of_stack rfl
  rcases loadedApplied.of_effect effect with ⟨_, _, _, isHigh, _⟩ | ⟨_, isLoaded⟩
  · omega
  · have same := isLoaded kind slot rfl (by omega)
    rw [isHeld, Option.getD_some] at same
    exact kinship.trans (kinship.of_sameFamily same.symm) kin

/-- Without snapshots, an operand for which stores are found is narrow. -/
theorem tracesOperands_of_plain (body : Body) {branches completed : Flow}
    {frames : Frames} (plain : ∀ snapshot, .snapshot snapshot ∉ body.instructions)
    (built : Flow.ofCode body.code = .ok branches)
    (computed : (computeFrames body branches : Query hierarchy _).eval =
      .ok (frames, completed)) :
    (Scene.ofBody body (completed.protect body.instructions).closeBlocks).TracesOperands
      frames := by
  intro position _ above _ frame cell type there peeked hasSource loadedFrom isType
  obtain ⟨_, alsoType, alike⟩ :=
    tracesKin_of_plain ValueType.alike_kinship body plain built computed
    position above .boolean frame cell there peeked hasSource loadedFrom
  cases isType.symm.trans alsoType
  exact alike.trans (ValueType.isNarrow_of_isIntLike rfl)

end Query

end LocalTable
