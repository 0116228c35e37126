import LocalTable.Proofs.Flow

/-!
# Growth of flows

A flow is built by edits of three kinds, which mark exits and add edges.  What
holds of a flow after every edit is proved once for each kind: a position with
explicit edges is an exit, edges are recorded at both ends, and control leaves a
block without going on only where it may.  Recording the branches and the throws
of a method is a sequence of edits.
-/

namespace LocalTable.Flow

/-- What a flow may hold: the edges that there may be, and the positions after
which control need not go on to the next one. -/
structure Bounds where
  edge : Nat → Nat → Prop
  final : Nat → Prop

/-- No bounds at all. -/
def Bounds.unlimited : Bounds :=
  ⟨fun _ _ => True, fun _ => True⟩

/-- One change to a flow within the bounds.  A position that has no edges yet gets
its edges by a jump; later edges are added one by one. -/
inductive Edit (bounds : Bounds) : Flow → Flow → Prop where
  | exit (flow : Flow) {position : Nat} (isFinal : bounds.final position) :
      Edit bounds flow (flow.markExit position)
  | jump {flow : Flow} {source : Nat} {targets : List Nat}
      (fresh : flow.targetsOf source = [])
      (edges : ∀ target ∈ targets, bounds.edge source target)
      (goesOn : bounds.final source ∨ source + 1 ∈ targets) :
      Edit bounds flow (flow.jump source targets)
  | edge {flow : Flow} {source target : Nat} (isEdge : bounds.edge source target)
      (goesOn : bounds.final source ∨ flow.targetsOf source ≠ []) :
      Edit bounds flow (flow.addEdge source target)

/-- The flow can be edited into the other one. -/
abbrev Grows (bounds : Bounds) : Flow → Flow → Prop :=
  Relation.ReflTransGen (Edit bounds)

variable {bounds : Bounds} {flow next : Flow}

/-! ## What edits keep -/

/-- The flow agrees with itself and keeps to the bounds. -/
structure Sound (bounds : Bounds) (flow : Flow) : Prop where
  balanced : flow.Balanced
  exit_of_target {position : Nat} (hasTarget : flow.targetsOf position ≠ []) :
    position ∈ flow.exits
  edge_of_source {source target : Nat} (isSource : source ∈ flow.sourcesOf target) :
    bounds.edge source target
  final_of_exit {position : Nat} (inBounds : position < flow.size)
    (isExit : position ∈ flow.exits) :
    bounds.final position ∨ position + 1 ∈ flow.targetsOf position
  entry_of_target {source target : Nat} (isTarget : target ∈ flow.targetsOf source)
    (inBounds : target < flow.size) : target ∈ flow.entries ∧
      source ∈ flow.sourcesOf target

/-- The second flow has everything that the first one has. -/
structure Within (small large : Flow) : Prop where
  size_eq : large.size = small.size
  ranges_eq : large.ranges = small.ranges
  entries {position : Nat} (member : position ∈ small.entries) : position ∈ large.entries
  exits {position : Nat} (member : position ∈ small.exits) : position ∈ large.exits
  targets {source target : Nat} (member : target ∈ small.targetsOf source) :
    target ∈ large.targetsOf source
  sources {source target : Nat} (member : source ∈ small.sourcesOf target) :
    source ∈ large.sourcesOf target

theorem Within.refl : flow.Within flow :=
  ⟨rfl, rfl, id, id, id, id⟩

theorem Within.trans {last : Flow} (left : flow.Within next) (right : next.Within last) :
    flow.Within last :=
  ⟨right.size_eq.trans left.size_eq, right.ranges_eq.trans left.ranges_eq,
    right.entries ∘ left.entries, right.exits ∘ left.exits, right.targets ∘ left.targets,
    right.sources ∘ left.sources⟩

theorem Sound.markExit {position : Nat} (sound : flow.Sound bounds)
    (isFinal : bounds.final position) : (flow.markExit position).Sound bounds where
  balanced := sound.balanced
  exit_of_target hasTarget :=
    IndexSet.mem_insert.mpr (.inr (sound.exit_of_target hasTarget))
  edge_of_source := sound.edge_of_source
  final_of_exit inBounds isExit := by
    rcases IndexSet.mem_insert.mp isExit with rfl | isExit
    · exact .inl isFinal
    · exact sound.final_of_exit inBounds isExit
  entry_of_target := sound.entry_of_target

theorem Sound.jump {source : Nat} {targets : List Nat} (sound : flow.Sound bounds)
    (edges : ∀ target ∈ targets, bounds.edge source target)
    (goesOn : bounds.final source ∨ source + 1 ∈ targets) :
    (flow.jump source targets).Sound bounds where
  balanced := balanced_jump sound.balanced
  exit_of_target {position} hasTarget := by
    rw [exits_jump, IndexSet.mem_insert]
    rw [targetsOf_jump] at hasTarget
    split at hasTarget
    next isSource => exact .inl isSource.1
    next => exact .inr (sound.exit_of_target hasTarget)
  edge_of_source {other target} isSource := by
    rcases (mem_sourcesOf_jump sound.balanced).mp isSource with
      isSource | ⟨isTarget, _, rfl⟩
    · exact sound.edge_of_source isSource
    · exact edges target isTarget
  final_of_exit {position} inBounds isExit := by
    rw [size_jump] at inBounds
    rw [targetsOf_jump]
    by_cases same : position = source
    · subst same
      simpa [inBounds] using goesOn
    · have isExit : position ∈ flow.exits := by simpa [same] using isExit
      simpa [same] using sound.final_of_exit inBounds isExit
  entry_of_target {other target} isTarget inBounds := by
    rw [size_jump] at inBounds
    rw [mem_entries_jump, mem_sourcesOf_jump sound.balanced]
    rw [targetsOf_jump] at isTarget
    split at isTarget
    next isSource =>
      exact ⟨.inr ⟨isTarget, inBounds⟩, .inr ⟨isTarget, inBounds, isSource.1⟩⟩
    next => exact (sound.entry_of_target isTarget inBounds).imp .inl .inl

theorem Sound.addEdge {source target : Nat} (sound : flow.Sound bounds)
    (isEdge : bounds.edge source target)
    (goesOn : bounds.final source ∨ flow.targetsOf source ≠ []) :
    (flow.addEdge source target).Sound bounds where
  balanced := balanced_addEdge sound.balanced
  exit_of_target {position} hasTarget := by
    rw [exits_addEdge, IndexSet.mem_insert]
    rw [targetsOf_addEdge] at hasTarget
    split at hasTarget
    next isSource => exact .inl isSource.1
    next => exact .inr (sound.exit_of_target hasTarget)
  edge_of_source {other position} isSource := by
    rcases (mem_sourcesOf_addEdge sound.balanced).mp isSource with
      isSource | ⟨rfl, _, rfl⟩
    · exact sound.edge_of_source isSource
    · exact isEdge
  final_of_exit {position} inBounds isExit := by
    rw [size_addEdge] at inBounds
    rw [targetsOf_addEdge]
    by_cases same : position = source
    · subst same
      rcases goesOn with isFinal | hasTarget
      · exact .inl isFinal
      · have before := sound.final_of_exit inBounds (sound.exit_of_target hasTarget)
        simp only [inBounds, and_self, if_true, mem_appendNew]
        exact before.imp_right .inl
    · have isExit : position ∈ flow.exits := by simpa [same] using isExit
      simpa [same] using sound.final_of_exit inBounds isExit
  entry_of_target {other position} isTarget inBounds := by
    rw [size_addEdge] at inBounds
    rw [mem_entries_addEdge, mem_sourcesOf_addEdge sound.balanced]
    rw [targetsOf_addEdge] at isTarget
    split at isTarget
    next isSource =>
      rcases mem_appendNew.mp isTarget with isTarget | rfl
      · rw [isSource.1]
        exact (sound.entry_of_target isTarget inBounds).imp .inl .inl
      · exact ⟨.inr ⟨rfl, inBounds⟩, .inr ⟨rfl, inBounds, isSource.1⟩⟩
    next => exact (sound.entry_of_target isTarget inBounds).imp .inl .inl

theorem Edit.sound (edit : Edit bounds flow next) (sound : flow.Sound bounds) :
    next.Sound bounds := by
  cases edit with
  | exit isFinal => exact sound.markExit isFinal
  | jump _ edges goesOn => exact sound.jump edges goesOn
  | edge isEdge goesOn => exact sound.addEdge isEdge goesOn

theorem Edit.within (edit : Edit bounds flow next) (sound : flow.Sound bounds) :
    flow.Within next := by
  cases edit with
  | exit isFinal =>
      exact ⟨rfl, rfl, id, fun member => IndexSet.mem_insert.mpr (.inr member), id, id⟩
  | jump fresh _ _ =>
      refine ⟨size_jump .., ranges_jump .., fun member =>
        mem_entries_jump.mpr (.inl member),
        fun member => ?_, fun {other target} member => ?_,
        fun member => (mem_sourcesOf_jump sound.balanced).mpr (.inl member)⟩
      · rw [exits_jump]
        exact IndexSet.mem_insert.mpr (.inr member)
      · rw [targetsOf_jump, if_neg]
        · exact member
        · rintro ⟨rfl, _⟩
          rw [fresh] at member
          cases member
  | edge _ _ =>
      refine ⟨size_addEdge .., ranges_addEdge ..,
        fun member => mem_entries_addEdge.mpr (.inl member), fun member =>
          ?_, fun {other target} member => ?_,
        fun member => (mem_sourcesOf_addEdge sound.balanced).mpr (.inl member)⟩
      · rw [exits_addEdge]
        exact IndexSet.mem_insert.mpr (.inr member)
      · rw [targetsOf_addEdge]
        split
        next isSource => exact mem_appendNew.mpr (.inl (isSource.1 ▸ member))
        next => exact member

theorem Grows.sound (grows : Grows bounds flow next) (sound : flow.Sound bounds) :
    next.Sound bounds := by
  induction grows with
  | refl => exact sound
  | tail _ edit ih => exact edit.sound ih

theorem Grows.within (grows : Grows bounds flow next) (sound : flow.Sound bounds) :
    flow.Within next := by
  induction grows with
  | refl => exact .refl
  | tail before edit ih => exact ih.trans (edit.within (Grows.sound before sound))

/-! ## Stages -/

/-- The flow before any instruction is recorded: control enters at the first
position and at the handlers. -/
def unrecorded (size : Nat) (ranges : List ProtectedRange) : Flow :=
  ranges.foldl (fun flow range => flow.markEntry range.handler) (empty size ranges)

theorem foldl_markEntry (ranges : List ProtectedRange) (flow : Flow) :
    ranges.foldl (fun flow range => flow.markEntry range.handler) flow =
      { flow with
        entries := (ranges.map ProtectedRange.handler).foldl IndexSet.insert
          flow.entries } := by
  induction ranges generalizing flow with
  | nil => rfl
  | cons range rest ih => exact ih (flow.markEntry range.handler)

section Unrecorded

variable (size : Nat) (ranges : List ProtectedRange)

theorem targetsOf_unrecorded (position : Nat) :
    (unrecorded size ranges).targetsOf position = [] := by
  simp only [unrecorded, foldl_markEntry, targetsOf_eq, empty, Array.getElem?_replicate]
  split <;> rfl

theorem sourcesOf_unrecorded (position : Nat) :
    (unrecorded size ranges).sourcesOf position = [] := by
  simp only [unrecorded, foldl_markEntry, sourcesOf_eq, empty, Array.getElem?_replicate]
  split <;> rfl

theorem size_unrecorded : (unrecorded size ranges).size = size := by
  simp [unrecorded, foldl_markEntry, Flow.size, empty]

theorem ranges_unrecorded : (unrecorded size ranges).ranges = ranges := by
  simp [unrecorded, foldl_markEntry, empty]

theorem mem_entries_unrecorded {position : Nat} :
    position ∈ (unrecorded size ranges).entries ↔
      position = 0 ∧ size ≠ 0 ∨ ∃ range ∈ ranges, range.handler = position := by
  simp only [unrecorded, foldl_markEntry, empty, IndexSet.mem_foldl_insert, List.mem_map]
  apply or_congr_left
  split
  next isZero => simp [isZero]
  next isPositive =>
    rw [IndexSet.mem_insert]
    simp only [isPositive, ne_eq, not_false_iff, and_true]
    exact or_iff_left (IndexSet.mem_empty position)

theorem unrecorded_sound : (unrecorded size ranges).Sound bounds := by
  constructor
  · simp [Balanced, Flow.size, unrecorded, foldl_markEntry, empty]
  · intro position hasTarget
    exact absurd (targetsOf_unrecorded size ranges position) hasTarget
  · intro source target isSource
    rw [sourcesOf_unrecorded] at isSource
    cases isSource
  · intro position _ isExit
    simp only [unrecorded, foldl_markEntry] at isExit
    exact absurd isExit (IndexSet.mem_empty position)
  · intro source target isTarget
    rw [targetsOf_unrecorded] at isTarget
    cases isTarget

end Unrecorded

theorem positionOf_eq_ok {code : Code} {label : Label} {position target : Nat} :
    code.positionOf label position = .ok target ↔ code.position? label = some target := by
  unfold Code.positionOf
  cases code.position? label <;> simp

/-- A protected range stands for a handler of the code. -/
theorem rangeOf_eq_ok {code : Code} {handler : Handler} {range : ProtectedRange} :
    rangeOf code handler = .ok range ↔
      code.position? handler.first = some range.first ∧
      code.position? handler.stop = some range.last ∧
      code.position? handler.handler = some range.handler ∧
      range.caught = handler.caught.getD .throwable := by
  simp only [rangeOf, bind_eq_ok, positionOf_eq_ok]
  constructor
  · rintro ⟨first, isFirst, last, isLast, target, isTarget, ⟨⟩⟩
    exact ⟨isFirst, isLast, isTarget, rfl⟩
  · rintro ⟨isFirst, isLast, isTarget, caught⟩
    exact ⟨_, isFirst, _, isLast, _, isTarget, by rw [← caught]; rfl⟩

/-- A jump leads to its labels, and a conditional one also to the next position. -/
theorem mem_destinations {code : Code} {position target : Nat} {instruction : Instruction}
    {targets : List Nat} (resolved : destinations code position instruction =
      .ok targets) :
    target ∈ targets ↔
      (∃ label ∈ instruction.jumpTargets, code.position? label = some target) ∨
        instruction.isConditionalJump = true ∧ target = position + 1 := by
  obtain ⟨positions, isPositions, resolved⟩ := bind_eq_ok.mp resolved
  obtain ⟨ofLabel, ofPosition⟩ := mapM_eq_ok isPositions
  simp only [positionOf_eq_ok] at ofLabel ofPosition
  have mem_positions (other : Nat) : other ∈ positions ↔
      ∃ label ∈ instruction.jumpTargets, code.position? label = some other := by
    constructor
    · exact ofPosition other
    · rintro ⟨label, member, placed⟩
      obtain ⟨found, isFound, foundPlaced⟩ := ofLabel label member
      cases placed.symm.trans foundPlaced
      exact isFound
  rw [← mem_positions]
  split at resolved
  next isConditional =>
    cases resolved
    obtain ⟨label, isLabel⟩ := Instruction.exists_jumpTarget isConditional
    obtain ⟨some, isSome, _⟩ := ofLabel label isLabel
    simp only [List.mem_flatMap, isConditional, true_and]
    constructor
    · rintro ⟨other, isOther, member⟩
      split at member
      · exact .inl (List.mem_singleton.mp member ▸ isOther)
      · rcases List.mem_pair.mp member with rfl | rfl
        · exact .inr rfl
        · exact .inl isOther
    · rintro (member | rfl)
      · refine ⟨target, member, ?_⟩
        split <;> simp
      · refine ⟨some, isSome, ?_⟩
        split
        next same => exact List.mem_singleton.mpr same.symm
        next => exact List.mem_cons_self ..
  next isUnconditional =>
    cases resolved
    simp [isUnconditional]

/-- What the code of a method does lies within the bounds. -/
structure Bounds.Admits (bounds : Bounds) (code : Code) : Prop where
  final_of_return {position : Nat} {instruction : Instruction}
    (found : code.instructions[position]? = some instruction)
    (isReturn : instruction.isReturn = true) : bounds.final position
  final_of_jump {position : Nat} {instruction : Instruction}
    (found : code.instructions[position]? = some instruction)
    (jumps : instruction.jumpTargets ≠ []) : bounds.final position
  edge_of_jump {position : Nat} {instruction : Instruction} {targets : List Nat}
    (found : code.instructions[position]? = some instruction)
    (resolved : destinations code position instruction = .ok targets) {target : Nat}
    (member : target ∈ targets) : bounds.edge position target

/-- The three things that can happen to the flow at an instruction. -/
theorem addInstruction_eq_ok {code : Code} {instruction : Instruction} {position : Nat}
    (added : addInstruction code flow instruction position = .ok next) :
    (instruction.jumpTargets = [] ∧ instruction.isReturn = true ∧
      next = flow.markExit position) ∨
    (instruction.jumpTargets = [] ∧ instruction.isReturn = false ∧ next = flow) ∨
    (instruction.jumpTargets ≠ [] ∧ ∃ targets,
      destinations code position instruction = .ok targets ∧
      next = flow.jump position targets) := by
  unfold addInstruction at added
  split at added
  next empty =>
    rw [List.isEmpty_iff] at empty
    cases returns : instruction.isReturn <;> rw [returns] at added <;> cases added
    · exact .inr (.inl ⟨empty, rfl, rfl⟩)
    · exact .inl ⟨empty, rfl, rfl⟩
  next jumps =>
    obtain ⟨targets, resolved, added⟩ := bind_eq_ok.mp added
    cases added
    exact .inr (.inr ⟨by simpa using jumps, targets, resolved, rfl⟩)

theorem grows_addInstruction {code : Code} {instruction : Instruction} {position : Nat}
    (admits : bounds.Admits code)
    (found : code.instructions[position]? = some instruction)
    (fresh : flow.targetsOf position = [])
    (added : addInstruction code flow instruction position = .ok next) :
    Grows bounds flow next := by
  rcases addInstruction_eq_ok added with
    ⟨_, isReturn, rfl⟩ | ⟨_, _, rfl⟩ | ⟨jumps, targets, resolved, rfl⟩
  · exact .single (.exit flow (admits.final_of_return found isReturn))
  · exact .refl
  · apply Relation.ReflTransGen.single
    apply Edit.jump fresh
    · intro target member
      exact admits.edge_of_jump found resolved member
    · exact .inl (admits.final_of_jump found jumps)

/-- What is known of a flow when the instructions before a position have been
recorded. -/
structure Recorded (bounds : Bounds) (code : Code) (ranges : List ProtectedRange)
    (position : Nat) (flow : Flow) : Prop where
  grows : Grows bounds (unrecorded code.instructions.size ranges) flow
  size_eq : flow.size = code.instructions.size
  fresh {later : Nat} (isLater : position ≤ later) : flow.targetsOf later = []
  targets {earlier : Nat} {instruction : Instruction} (isEarlier : earlier < position)
    (found : code.instructions[earlier]? = some instruction)
    (jumps : instruction.jumpTargets ≠ []) :
    destinations code earlier instruction = .ok (flow.targetsOf earlier)
  exits {earlier : Nat} {instruction : Instruction} (isEarlier : earlier < position)
    (found : code.instructions[earlier]? = some instruction)
    (leaves : instruction.jumpTargets ≠ [] ∨ instruction.isReturn = true) :
    earlier ∈ flow.exits

theorem Recorded.addInstruction {code : Code} {ranges : List ProtectedRange}
    {instruction : Instruction} {position : Nat} (admits : bounds.Admits code)
    (recorded : Recorded bounds code ranges position flow)
    (found : code.instructions[position]? = some instruction)
    (added : Flow.addInstruction code flow instruction position = .ok next) :
    Recorded bounds code ranges (position + 1) next := by
  have grows := grows_addInstruction admits found
    (recorded.fresh (Nat.le_refl position)) added
  have inBounds : position < flow.size := by
    rw [recorded.size_eq]
    exact (Array.getElem?_eq_some_iff.mp found).1
  -- Only the edges of the instruction itself change, and only if it jumps.
  have others {other : Nat} (different : other ≠ position) :
      next.targetsOf other = flow.targetsOf other := by
    rcases addInstruction_eq_ok added with
      ⟨_, _, rfl⟩ | ⟨_, _, rfl⟩ | ⟨_, targets, _, rfl⟩
    · rfl
    · rfl
    · simp [targetsOf_jump, different]
  refine ⟨recorded.grows.trans grows, ?_, ?_, ?_, ?_⟩
  · rw [← recorded.size_eq]
    rcases addInstruction_eq_ok added with
      ⟨_, _, rfl⟩ | ⟨_, _, rfl⟩ | ⟨_, targets, _, rfl⟩
    · rfl
    · rfl
    · exact size_jump ..
  · intro later isLater
    rw [others (Nat.ne_of_gt isLater)]
    exact recorded.fresh (Nat.le_of_succ_le isLater)
  · intro earlier other isEarlier foundOther jumps
    rcases Nat.lt_succ_iff_lt_or_eq.mp isEarlier with isEarlier | rfl
    · rw [others (Nat.ne_of_lt isEarlier)]
      exact recorded.targets isEarlier foundOther jumps
    · cases found.symm.trans foundOther
      rcases addInstruction_eq_ok added with
        ⟨none, _, _⟩ | ⟨none, _, _⟩ | ⟨_, targets, resolved, rfl⟩
      · exact absurd none jumps
      · exact absurd none jumps
      · simpa [targetsOf_jump, inBounds] using resolved
  · intro earlier other isEarlier foundOther leaves
    rcases Nat.lt_succ_iff_lt_or_eq.mp isEarlier with isEarlier | rfl
    · have isExit := recorded.exits isEarlier foundOther leaves
      exact (Grows.within grows (Grows.sound recorded.grows (unrecorded_sound ..))).exits
        isExit
    · cases found.symm.trans foundOther
      rcases addInstruction_eq_ok added with
        ⟨_, _, rfl⟩ | ⟨noJump, noReturn, rfl⟩ | ⟨_, targets, _, rfl⟩
      · exact IndexSet.mem_insert.mpr (.inl rfl)
      · simp [noJump, noReturn] at leaves
      · rw [exits_jump]
        exact IndexSet.mem_insert.mpr (.inl rfl)

/-- The flow of branches, switches and returns records all instructions. -/
theorem recorded_ofCode {code : Code} (admits : bounds.Admits code)
    (built : ofCode code = .ok flow) :
    ∃ ranges, code.handlers.mapM (rangeOf code) = .ok ranges ∧
      Recorded bounds code ranges code.instructions.size flow := by
  obtain ⟨ranges, resolved, folded⟩ := bind_eq_ok.mp built
  refine ⟨ranges, resolved, ?_⟩
  have start : Recorded bounds code ranges 0
      (unrecorded code.instructions.size ranges) := by
    exact ⟨.refl, size_unrecorded .., fun _ => targetsOf_unrecorded .., nofun, nofun⟩
  have recorded : Recorded bounds code ranges
      (0 + code.instructions.toList.length) flow := by
    refine foldlM_zipIdx_induction ?_ start folded
    intro index instruction before after found recorded added
    rw [Nat.zero_add] at recorded added ⊢
    exact recorded.addInstruction admits (by simpa using found) added
  simpa using recorded

/-! ## Throws -/

theorem mem_catching {hierarchy : Hierarchy} {exception : BinaryName} {position : Nat}
    {ranges : List ProtectedRange} :
    (Query.catching exception position ranges : Query hierarchy (List Nat)).Ensures
      fun handlers => ∀ handler ∈ handlers, ∃ range ∈ ranges,
        range.first ≤ position ∧ position < range.last ∧ range.handler = handler := by
  induction ranges with
  | nil =>
      apply Query.Ensures.pure
      intro handler member
      cases member
  | cons range rest ih =>
      have inRest := ih.mono fun handlers caught handler member =>
        (caught handler member).imp fun other isOther =>
          And.imp_left (List.mem_cons_of_mem range) isOther
      unfold Query.catching
      split
      next around =>
        simp only [Bool.and_eq_true, decide_eq_true_eq] at around
        refine Query.Ensures.bind Query.Ensures.trivial fun catches _ => ?_
        split
        · refine Query.Ensures.bind inRest fun handlers caught => Query.Ensures.pure ?_
          intro handler member
          rcases List.mem_cons.mp member with rfl | member
          · exact ⟨range, List.mem_cons_self .., around.1, around.2, rfl⟩
          · exact caught handler member
        · exact inRest
      next => exact inRest

/-- A throw leaves the method, or it gets edges to handlers of ranges around it. -/
theorem addThrow_eq_ok {hierarchy : Hierarchy} {position : Nat}
    {thrown : Option ValueType}
    (added : (Query.addThrow flow position thrown : Query hierarchy Flow).eval =
      .ok next) :
    next = flow.markExit position ∨ ∃ handlers : List Nat, handlers ≠ [] ∧
      next = handlers.foldl (fun flow handler => flow.addEdge position handler) flow ∧
      ∀ handler ∈ handlers, ∃ range ∈ flow.ranges,
        range.first ≤ position ∧ position < range.last ∧ range.handler = handler := by
  obtain ⟨handlers, caught, added⟩ := Query.eval_bind_eq_ok.mp added
  cases handlers with
  | nil =>
      cases added
      exact .inl rfl
  | cons handler rest =>
      cases added
      exact .inr ⟨handler :: rest, List.cons_ne_nil _ _, rfl, mem_catching _ caught⟩

theorem grows_addEdges {source : Nat} {targets : List Nat}
    (edges : ∀ target ∈ targets, bounds.edge source target)
    (isFinal : bounds.final source) :
    Grows bounds flow (targets.foldl
      (fun flow target => flow.addEdge source target) flow) := by
  induction targets generalizing flow with
  | nil => exact .refl
  | cons target rest ih =>
      refine .head (.edge (edges target (List.mem_cons_self ..)) (.inl isFinal)) (ih ?_)
      exact fun other member => edges other (List.mem_cons_of_mem _ member)

/-- What adding edges out of one position leaves as it is. -/
structure Keeps (position : Nat) (before after : Flow) : Prop where
  size_eq : after.size = before.size
  ranges_eq : after.ranges = before.ranges
  exits {other : Nat} (isExit : other ∈ before.exits) : other ∈ after.exits
  targets {other : Nat} (different : other ≠ position) :
    after.targetsOf other = before.targetsOf other

theorem keeps_addEdges (source : Nat) (targets : List Nat) (flow : Flow) :
    Keeps source flow (targets.foldl
      (fun flow target => flow.addEdge source target) flow) := by
  induction targets generalizing flow with
  | nil => exact ⟨rfl, rfl, id, fun _ => rfl⟩
  | cons target rest ih =>
      have later := ih (flow.addEdge source target)
      refine ⟨later.size_eq.trans (size_addEdge ..),
        later.ranges_eq.trans (ranges_addEdge ..), fun isExit =>
          later.exits ?_, fun different => (later.targets different).trans ?_⟩
      · rw [exits_addEdge]
        exact IndexSet.mem_insert.mpr (.inr isExit)
      · rw [targetsOf_addEdge, if_neg fun same => different same.1]

theorem keeps_addThrow {hierarchy : Hierarchy} {position : Nat}
    {thrown : Option ValueType}
    (added : (Query.addThrow flow position thrown : Query hierarchy Flow).eval =
      .ok next) :
    Keeps position flow next := by
  rcases addThrow_eq_ok added with rfl | ⟨targets, _, rfl, _⟩
  · exact ⟨rfl, rfl, fun isExit => IndexSet.mem_insert.mpr (.inr isExit), fun _ => rfl⟩
  · exact keeps_addEdges position targets flow

theorem grows_addThrow {hierarchy : Hierarchy} {position : Nat}
    {thrown : Option ValueType} (isFinal : bounds.final position)
    (handlers : ∀ range ∈ flow.ranges, range.first ≤ position → position < range.last →
      bounds.edge position range.handler)
    (added : (Query.addThrow flow position thrown : Query hierarchy Flow).eval =
      .ok next) :
    Grows bounds flow next := by
  rcases addThrow_eq_ok added with rfl | ⟨targets, _, rfl, caught⟩
  · exact .single (.exit flow isFinal)
  · refine grows_addEdges (fun target member => ?_) isFinal
    obtain ⟨range, inRanges, after, before, rfl⟩ := caught target member
    exact handlers range inRanges after before

/-- A throw ends its block. -/
theorem mem_exits_addThrow {hierarchy : Hierarchy} {position : Nat}
    {thrown : Option ValueType}
    (added : (Query.addThrow flow position thrown : Query hierarchy Flow).eval =
      .ok next) :
    position ∈ next.exits := by
  rcases addThrow_eq_ok added with rfl | ⟨targets, nonempty, rfl, _⟩
  · exact IndexSet.mem_insert.mpr (.inl rfl)
  · cases targets with
    | nil => exact absurd rfl nonempty
    | cons target rest =>
        rw [List.foldl_cons]
        apply (keeps_addEdges position rest _).exits
        rw [exits_addEdge]
        exact IndexSet.mem_insert.mpr (.inl rfl)

end LocalTable.Flow
