import LocalTable.Proofs.Frame.Operands

/-!
# What instructions do to frames

Most instructions only trade cells on the stack: they pop their operands, and push cells
which come from no local.  A load pushes a value that remembers its slot, and stores and
increments change a single local.
-/

namespace LocalTable

namespace Frame

variable {frame next after : Frame}

/-! ## Trades on the stack -/

/-- The type is no deeper an array than those on the stack and those that the instruction
brings in. -/
def Shallow (frame : Frame) (instruction : Instruction) (type : ValueType) : Prop :=
  ∀ depth, instruction.arrayDepth ≤ depth →
    (∀ cell ∈ frame.stack, depthOf cell.type ≤ depth) → depthOf (some type) ≤ depth

theorem shallow_of_noArray {instruction : Instruction} {type : ValueType}
    (noArray : depthOf (some type) = 0) : frame.Shallow instruction type := by
  intro depth _ _
  rw [noArray]
  exact Nat.zero_le depth

theorem shallow_of_brought {instruction : Instruction} {type : ValueType}
    (brought : depthOf (some type) = instruction.arrayDepth) :
    frame.Shallow instruction type :=
  fun _ within _ => Nat.le_trans (Nat.le_of_eq brought) within

/-- What an instruction does to the stack, if it touches no local.  Most of them pop what
they demand, and then push a value at most.  Some move or copy cells.  Nothing is left on
the stack by those that leave the method, and only the exception by a throw. -/
inductive Trades (frame : Frame) : Instruction → Frame → Prop where
  | pops {instruction : Instruction} {after : Frame}
      (lowers : frame.Lowers instruction.stackDemand after) :
      Trades frame instruction after
  | pushes {instruction : Instruction} {lowered after : Frame} {type : ValueType}
      (lowers : frame.Lowers instruction.stackDemand lowered)
      (shallow : frame.Shallow instruction type)
      (pushed : lowered.push type none = .ok after) :
      Trades frame instruction after
  | moves {instruction : Instruction} {order : List Nat} {after : Frame}
      (shuffled : frame.shuffle instruction.stackDemand order = .ok after) :
      Trades frame instruction after
  | copies {cell : Cell} {after : Frame} (isTop : frame.peek? 1 = some cell)
      (pushed : frame.pushCell (.anonymous cell.type) = .ok after) :
      Trades frame .dup after
  | leaves {instruction : Instruction} {lowered : Frame}
      (isReturn : instruction.isReturn = true)
      (lowers : frame.Lowers instruction.stackDemand lowered) :
      Trades frame instruction lowered.clearStack
  | throws {thrown : Cell} {lowered after : Frame}
      (isThrown : frame.peek? 1 = some thrown) (lowers : frame.Lowers 1 lowered)
      (pushed : lowered.clearStack.push (thrown.type.getD (.object .throwable)) none =
        .ok after) : Trades frame .throwRef after

/-- What an instruction does to a frame. -/
inductive Effect (frame : Frame) : Instruction → Frame → Prop where
  | load {kind : Kind} {slot : Nat} {after : Frame}
      (pushed : frame.push ((frame.localAt slot).getD kind.assumed)
        (some slot) = .ok after) :
      Effect frame (.load kind slot) after
  | store {kind : Kind} {slot : Nat} {cell : Cell} {popped after : Frame}
      (lowers : frame.Lowers kind.width popped)
      (isCell : frame.peek? kind.width = some cell)
      (stored : popped.setLocal slot (cell.type.getD kind.assumed) = .ok after) :
      Effect frame (.store kind slot) after
  | increment {slot : Nat} {amount : Int} {after : Frame}
      (isEmpty : frame.localAt slot = none)
      (stored : frame.setLocal slot .int = .ok after) :
      Effect frame (.increment slot amount) after
  | trade {instruction : Instruction} {after : Frame}
      (notLoad : instruction.loaded? = none)
      (notStore : instruction.stored? = none) (trades : frame.Trades instruction after) :
      Effect frame instruction after

section Gives

variable {missing : Prop} {instruction : Instruction}

theorem gives_pops {outcome : Except FrameFault Frame}
    (notLoad : instruction.loaded? = none) (notStore : instruction.stored? = none)
    (gives : Gives missing (frame.Lowers instruction.stackDemand) outcome) :
    Gives missing (frame.Effect instruction) outcome :=
  gives.mono fun _ lowers => .trade notLoad notStore (.pops lowers)

theorem gives_pushes {lowered : Frame} {type : ValueType}
    (notLoad : instruction.loaded? = none) (notStore : instruction.stored? = none)
    (lowers : frame.Lowers instruction.stackDemand lowered)
    (shallow : frame.Shallow instruction type) :
    Gives missing (frame.Effect instruction) (lowered.push type none) := by
  have present : lowered.push type none ≠ .error .noUpperSlot := push_ne_noUpperSlot nofun
  exact (Gives.of_ne present).mono fun _ pushed =>
    .trade notLoad notStore (.pushes lowers shallow pushed)

theorem gives_moves {order : List Nat} (notLoad : instruction.loaded? = none)
    (notStore : instruction.stored? = none) :
    Gives missing (frame.Effect instruction)
    (frame.shuffle instruction.stackDemand order) :=
  (Gives.of_ne shuffle_ne_noUpperSlot).mono fun _ shuffled =>
    .trade notLoad notStore (.moves shuffled)

/-- A value of the kind of an operand takes the place of all operands. -/
theorem gives_pop_pushes {lowered : Frame} {count : Nat}
    {f : Option ValueType → ValueType} (notLoad : instruction.loaded? = none)
    (notStore : instruction.stored? = none) (lowers : frame.Lowers count lowered)
    (demand : instruction.stackDemand = count + 1)
    (keeps : ∀ held depth, depthOf held ≤ depth → depthOf (some (f held)) ≤ depth) :
    Gives missing (frame.Effect instruction) (do
      let (cell, rest) ← lowered.pop
      rest.push (f cell.type) none) := by
  refine .bind (gives_pop lowered) fun (cell, rest) ⟨lowersLast, isCell⟩ => ?_
  refine gives_pushes notLoad notStore (demand ▸ lowers.trans lowersLast) ?_
  intro depth _ within
  exact keeps _ _ (within cell (mem_of_peek? (lowers.peek?_eq.symm.trans isCell)))

/-- Two `int` operands are joined. -/
theorem gives_intJoin (notLoad : instruction.loaded? = none)
    (notStore : instruction.stored? = none) (demand : instruction.stackDemand = 2) :
    Gives missing (frame.Effect instruction) (do
      let (right, lowered) ← frame.pop
      let (left, rest) ← lowered.pop
      rest.push (.intJoin (left.type.getD .int) (right.type.getD .int)) none) := by
  refine .bind (gives_pop frame) fun (right, lowered) ⟨lowersFirst, isRight⟩ => ?_
  refine .bind (gives_pop lowered) fun (left, rest) ⟨lowersSecond, isLeft⟩ => ?_
  refine gives_pushes notLoad notStore (demand ▸ lowersFirst.trans lowersSecond) ?_
  intro depth _ within
  have rightShallow := within right (mem_of_peek? isRight)
  have leftShallow := within left (mem_of_peek? (lowersFirst.peek?_eq.symm.trans isLeft))
  exact depthOf_intJoin (depthOf_getD leftShallow rfl) (depthOf_getD rightShallow rfl)

theorem gives_call {descriptor : MethodDescriptor} {hasReceiver : Bool}
    (notLoad : instruction.loaded? = none) (notStore : instruction.stored? = none)
    (demand : instruction.stackDemand = descriptor.parameterLength hasReceiver)
    (brought : instruction.arrayDepth =
      (descriptor.result.map Instruction.arrayDepth.fieldDepth).getD 0) :
    Gives missing (frame.Effect instruction) (frame.call descriptor hasReceiver) := by
  rw [descriptor.parameterLength_eq] at demand
  have taken {finish : Frame → Except FrameFault Frame}
      (finishes : ∀ ready, frame.Lowers instruction.stackDemand ready →
        Gives missing (frame.Effect instruction) (finish ready)) :
      Gives missing (frame.Effect instruction) (do
        let lowered ← frame.dropWidths (descriptor.parameters.reverse.map FieldType.width)
        let ready ← if hasReceiver then lowered.drop 1 else pure lowered
        finish ready) := by
    refine .bind (gives_arguments frame descriptor.parameters) fun lowered arguments => ?_
    cases hasReceiver with
    | true =>
        exact .bind (gives_drop lowered 1) fun ready received =>
          finishes ready (demand ▸ arguments.trans received)
    | false => exact finishes lowered (demand ▸ arguments)
  unfold call
  cases result : descriptor.result with
  | none => exact taken fun _ lowers => .trade notLoad notStore (.pops lowers)
  | some type =>
      rw [result] at brought
      exact taken fun _ lowers => gives_pushes notLoad notStore lowers
        (shallow_of_brought ((depthOf_ofField type).trans brought.symm))

/-- Every instruction has one of these effects, or a fault.  The fault is a missing upper
slot only if the instruction loads from the last slot. -/
theorem gives_effect (frame : Frame) (instruction : Instruction) :
    Gives (instruction.loaded? = some lastSlot) (frame.Effect instruction)
      (frame.apply instruction) := by
  have none_popped := Lowers.refl frame
  cases instruction with
  | load kind slot =>
      cases outcome : frame.apply (.load kind slot) with
      | ok after => exact .load outcome
      | error fault =>
          rintro rfl
          exact Decidable.byContradiction fun inReach =>
            push_ne_noUpperSlot inReach outcome
  | store kind slot =>
      refine .bind (gives_popWidth frame kind.width_eq_one_or_two) ?_
      rintro ⟨cell, popped⟩ ⟨lowers, isCell⟩
      exact (Gives.of_ne setLocal_ne_noUpperSlot).mono fun _ => .store lowers isCell
  | increment slot amount =>
      simp only [apply]
      split
      next isEmpty =>
        exact (Gives.of_ne setLocal_ne_noUpperSlot).mono fun _ =>
          .increment (Option.isNone_iff_eq_none.mp isEmpty)
      next => exact .trade rfl rfl (.pops none_popped)
  | label | lineNumber | snapshot | nop | goto | jsr | ret =>
      exact .trade rfl rfl (.pops none_popped)
  | pushNull | intConstant | pushByte | pushShort | longConstant | floatConstant
  | doubleConstant | new =>
      exact gives_pushes rfl rfl none_popped (shallow_of_noArray rfl)
  | loadConstant constant =>
      exact gives_pushes rfl rfl none_popped
        (shallow_of_noArray (by cases constant <;> rfl))
  | getStatic field =>
      exact gives_pushes rfl rfl none_popped (shallow_of_brought (depthOf_ofField _))
  | arrayLength | compareFloat | instanceOf =>
      exact .bind (gives_drop ..) fun _ lowers =>
        gives_pushes rfl rfl lowers (shallow_of_noArray rfl)
  | narrow target =>
      exact .bind (gives_drop ..) fun _ lowers =>
        gives_pushes rfl rfl lowers (shallow_of_noArray (by cases target <;> rfl))
  | newArray | newMultiArray | checkCast =>
      exact .bind (gives_drop ..) fun _ lowers =>
        gives_pushes rfl rfl lowers (shallow_of_brought rfl)
  | newRefArray element =>
      exact .bind (gives_drop ..) fun _ lowers =>
        gives_pushes rfl rfl lowers (shallow_of_brought (by cases element <;> rfl))
  | getField field =>
      exact .bind (gives_drop ..) fun _ lowers =>
        gives_pushes rfl rfl lowers (shallow_of_brought (depthOf_ofField _))
  | compareLong | compareDouble | logicLong | shiftLong =>
      exact .bind (gives_dropWidths frame (by decide)) fun _ lowers =>
        gives_pushes rfl rfl lowers (shallow_of_noArray rfl)
  | convert source target =>
      exact .bind (gives_dropWidths frame (by simpa using source.width_eq_one_or_two))
        fun _ lowers => gives_pushes rfl rfl lowers
          (shallow_of_noArray (by cases target <;> rfl))
  | pop | pop2 | branchZero | branchNull | tableSwitch | lookupSwitch | branchInt
  | branchRef | monitorEnter | monitorExit => exact gives_pops rfl rfl (gives_drop ..)
  | arrayStore element =>
      refine gives_pops rfl rfl ?_
      rw [Instruction.stackDemand, Nat.add_comm]
      exact gives_dropWidths frame (by simpa using element.width_eq_one_or_two)
  | putStatic field =>
      exact gives_pops rfl rfl
        (gives_dropWidths frame (by simpa using field.type.width_eq_one_or_two))
  | putField field =>
      refine gives_pops rfl rfl ?_
      rw [Instruction.stackDemand, Nat.add_comm]
      exact gives_dropWidths frame (by simpa using field.type.width_eq_one_or_two)
  | dupX1 | dupX2 | dup2 | dup2X1 | dup2X2 | swap => exact gives_moves rfl rfl
  | dup =>
      simp only [apply]
      split
      next cell isTop =>
        exact (Gives.of_ne pushCell_ne_noUpperSlot).mono fun _ pushed =>
          .trade rfl rfl (.copies isTop pushed)
      next => exact nofun
  | invoke | invokeDynamic => exact gives_call rfl rfl rfl rfl
  | returnVoid => exact .trade rfl rfl (.leaves rfl none_popped)
  | returnValue kind =>
      refine .bind (gives_dropWidths frame (by simpa using kind.width_eq_one_or_two)) ?_
      exact fun _ lowers => .trade rfl rfl (.leaves rfl lowers)
  | throwRef =>
      refine .bind (gives_pop frame) ?_
      rintro ⟨thrown, lowered⟩ ⟨lowers, isThrown⟩
      have present : lowered.clearStack.push
          (thrown.type.getD (.object .throwable)) none ≠
          .error .noUpperSlot := push_ne_noUpperSlot nofun
      exact (Gives.of_ne present).mono fun _ pushed =>
        .trade rfl rfl (.throws isThrown lowers pushed)
  | arrayLoad element =>
      refine .bind (gives_drop frame 1) fun lowered lowers => ?_
      refine gives_pop_pushes (f := fun held =>
        (held.bind ValueType.component?).getD element.assumed) rfl rfl lowers rfl ?_
      intro held depth shallow
      exact depthOf_getD (Nat.le_trans (depthOf_component? held) shallow)
        (by cases element <;> rfl)
  | shiftInt direction =>
      refine .bind (gives_drop frame 1) fun lowered lowers => ?_
      exact gives_pop_pushes (f := fun held => held.getD .int) rfl rfl lowers rfl
        fun _ _ shallow => depthOf_getD shallow rfl
  | logicInt operation => exact gives_intJoin rfl rfl rfl
  | arithmetic operation kind =>
      cases kind with
      | int => exact gives_intJoin rfl rfl rfl
      | long | float | double =>
          exact .bind (gives_dropWidths frame (by decide)) fun _ lowers =>
            gives_pushes rfl rfl lowers (shallow_of_noArray rfl)
  | negate kind =>
      cases kind with
      | int =>
          exact gives_pop_pushes (f := fun held => held.getD .int) rfl rfl none_popped rfl
            fun _ _ shallow => depthOf_getD shallow rfl
      | long | float | double =>
          exact .bind (gives_dropWidths frame (by decide)) fun _ lowers =>
            gives_pushes rfl rfl lowers (shallow_of_noArray rfl)

theorem effect_of_apply (applied : frame.apply instruction = .ok after) :
    frame.Effect instruction after :=
  (gives_effect frame instruction).of_ok applied

end Gives

/-! ## Sources of cells -/

/-- The second frame arises from the first one by popping cells and pushing cells
that come from no local. -/
structure Restacks (before after : Frame) : Prop where
  locals_eq : after.locals = before.locals
  maxStack_eq : after.maxStack = before.maxStack
  seeded_eq : after.seeded = before.seeded
  stack_eq : ∃ count pushed, count ≤ before.stack.length ∧
    after.stack = pushed ++ before.stack.drop count ∧ ∀ cell ∈ pushed, cell.source = none

namespace Restacks

theorem refl (frame : Frame) : frame.Restacks frame :=
  ⟨rfl, rfl, rfl, 0, [], Nat.zero_le _, rfl, fun _ impossible => by cases impossible⟩

theorem trans (first : frame.Restacks next) (second : next.Restacks after) :
    frame.Restacks after := by
  obtain ⟨firstCount, firstPushed, firstBound, firstStack, firstSources⟩ := first.stack_eq
  obtain ⟨secondCount, secondPushed, secondBound, secondStack, secondSources⟩ :=
    second.stack_eq
  refine ⟨second.locals_eq.trans first.locals_eq,
    second.maxStack_eq.trans first.maxStack_eq, second.seeded_eq.trans first.seeded_eq,
      firstCount + (secondCount - firstPushed.length),
    secondPushed ++ firstPushed.drop secondCount, ?_, ?_, ?_⟩
  · rw [firstStack, List.length_append, List.length_drop] at secondBound
    omega
  · rw [secondStack, firstStack, List.drop_append, List.drop_drop, List.append_assoc]
  · intro cell member
    rcases List.mem_append.mp member with member | member
    · exact secondSources cell member
    · exact firstSources cell (List.mem_of_mem_drop member)

theorem clearStack (frame : Frame) : frame.Restacks frame.clearStack :=
  ⟨rfl, rfl, rfl, frame.stack.length, [], Nat.le_refl _, by simp [Frame.clearStack],
    fun _ impossible => by cases impossible⟩

theorem lowers {count : Nat} (lowers : frame.Lowers count next) :
    frame.Restacks next := by
  obtain ⟨enough, rfl⟩ := lowers
  exact ⟨rfl, rfl, rfl, count, [], enough, rfl, fun _ impossible => by cases impossible⟩

theorem pushCell {cell : Cell} (isAnonymous : cell.source = none)
    (pushed : frame.pushCell cell = .ok next) : frame.Restacks next := by
  unfold Frame.pushCell at pushed
  split at pushed
  next =>
    cases pushed
    exact ⟨rfl, rfl, rfl, 0, [cell], Nat.zero_le _, rfl, fun other member =>
      List.mem_singleton.mp member ▸ isAnonymous⟩
  next => cases pushed

theorem push {type : ValueType} (pushed : frame.push type none = .ok next) :
    frame.Restacks next := by
  obtain ⟨_, rfl⟩ := push_eq_ok pushed
  refine ⟨rfl, rfl, rfl, 0, _, Nat.zero_le _, List.append_cons .., ?_⟩
  split <;> simp

theorem pushCells {cells : List Cell} (anonymous : ∀ cell ∈ cells, cell.source = none)
    (pushed : cells.foldlM Frame.pushCell frame = .ok next) : frame.Restacks next := by
  induction cells generalizing frame with
  | nil =>
      cases pushed
      exact refl _
  | cons cell rest ih =>
      rw [List.foldlM_cons] at pushed
      obtain ⟨middle, first, pushed⟩ := bind_eq_ok.mp pushed
      exact (pushCell (anonymous cell (List.mem_cons_self ..)) first).trans
        (ih (fun other member => anonymous other (List.mem_cons_of_mem _ member)) pushed)

theorem shuffle {count : Nat} {order : List Nat}
    (shuffled : frame.shuffle count order = .ok next) : frame.Restacks next := by
  unfold Frame.shuffle at shuffled
  split at shuffled
  next => cases shuffled
  next enough =>
    refine (lowers ⟨Nat.le_of_not_lt enough, rfl⟩).trans (pushCells ?_ shuffled)
    intro cell member
    obtain ⟨index, _, isCell⟩ := List.mem_filterMap.mp member
    obtain ⟨moved, _, rfl⟩ := List.mem_map.mp (List.mem_of_getElem? isCell)
    rfl

end Restacks

/-- Nothing that is traded comes from a local. -/
theorem Trades.restacks {instruction : Instruction}
    (trades : frame.Trades instruction after) :
    frame.Restacks after := by
  cases trades with
  | pops lowers => exact .lowers lowers
  | pushes lowers _ pushed => exact (Restacks.lowers lowers).trans (.push pushed)
  | moves shuffled => exact .shuffle shuffled
  | copies _ pushed => exact .pushCell rfl pushed
  | leaves _ lowers => exact (Restacks.lowers lowers).trans (.clearStack _)
  | throws _ lowers pushed =>
      exact (Restacks.lowers lowers).trans ((Restacks.clearStack _).trans (.push pushed))

/-! ## Locals -/

theorem localAt_eq (frame : Frame) (slot : Nat) :
    frame.localAt slot = (frame.locals[slot]?).getD none :=
  Array.getD_eq_getD_getElem?

theorem localAt_eq_none {slot : Nat} (outside : frame.locals.size ≤ slot) :
    frame.localAt slot = none := by
  rw [localAt_eq, Array.getElem?_eq_none outside, Option.getD_none]

theorem locals_ext {first second : Frame}
    (size_eq : first.locals.size = second.locals.size)
    (localAt_eq : ∀ slot, first.localAt slot = second.localAt slot) :
    first.locals = second.locals := by
  apply Array.ext size_eq
  intro slot inFirst inSecond
  simpa [Frame.localAt_eq, inFirst, inSecond] using localAt_eq slot

theorem lt_size_of_localAt {slot : Nat} {type : ValueType}
    (held : frame.localAt slot = some type) : slot < frame.locals.size := by
  apply Nat.lt_of_not_le
  intro outside
  rw [localAt_eq_none outside] at held
  cases held

theorem splitsWide_iff {slot : Nat} :
    frame.splitsWide slot = true ↔
      ∃ below type, slot = below + 1 ∧ frame.localAt slot = some .top ∧
        frame.localAt below = some type ∧ type.width = 2 := by
  cases slot with
  | zero => simp [splitsWide]
  | succ below =>
      simp only [splitsWide, Bool.and_eq_true, decide_eq_true_eq,
        Option.any_eq_true, beq_iff_eq]
      constructor
      · rintro ⟨isTop, type, held, isWide⟩
        exact ⟨below, type, rfl, isTop, held, isWide⟩
      · rintro ⟨_, type, ⟨⟩, isTop, held, isWide⟩
        exact ⟨isTop, type, held, isWide⟩

/-- A slot with a value is no upper half. -/
theorem splitsWide_of_value {slot : Nat} {type : ValueType}
    (held : frame.localAt slot = some type) (isValue : type ≠ .top) :
    frame.splitsWide slot = false := by
  rw [Bool.eq_false_iff]
  intro splits
  obtain ⟨_, _, _, isUpper, _⟩ := splitsWide_iff.mp splits
  exact isValue (Option.some.inj (held.symm.trans isUpper))

/-- A store changes nothing but locals. -/
theorem setLocal_eq_ok {slot : Nat} {type : ValueType}
    (stored : frame.setLocal slot type = .ok after) :
    slot + type.width ≤ frame.locals.size ∧
    after = { frame with locals := after.locals } ∧
      after.locals.size = frame.locals.size := by
  unfold setLocal at stored
  split at stored
  next => cases stored
  next inBounds =>
    cases stored
    refine ⟨Nat.le_of_not_lt inBounds, rfl, ?_⟩
    dsimp only
    split <;> split <;> simp

theorem exists_setLocal {slot : Nat} {type : ValueType}
    (inBounds : slot + type.width ≤ frame.locals.size) :
    ∃ after, frame.setLocal slot type = .ok after :=
  ⟨_, if_neg (Nat.not_lt.mpr inBounds)⟩

/-- The locals after a store: the slot itself, the upper half of a wide value, and
the lower half of a wide value that lost its upper one. -/
theorem localAt_setLocal {slot : Nat} {type : ValueType}
    (stored : frame.setLocal slot type = .ok after) (other : Nat) :
    after.localAt other =
      if other = slot then some type
      else if other = slot + 1 ∧ type.width = 2 then some .top
      else if other + 1 = slot ∧ frame.splitsWide slot = true then none
      else frame.localAt other := by
  obtain ⟨inBounds, _, _⟩ := setLocal_eq_ok stored
  have splitsAbove : frame.splitsWide slot = true → slot ≠ 0 := by
    rintro splits rfl
    cases splits
  have width := type.width_eq_one_or_two
  unfold setLocal at stored
  rw [if_neg (Nat.not_lt.mpr inBounds)] at stored
  cases stored
  simp only [localAt_eq]
  split <;> split <;> simp only [Array.getElem?_setIfInBounds,
    Array.size_setIfInBounds] <;> grind

/-- A store into an empty slot splits no wide value. -/
theorem localAt_setLocal_into_empty {slot : Nat} {type : ValueType}
    (isEmpty : frame.localAt slot = none) (stored : frame.setLocal slot type = .ok after)
    (other : Nat) :
    after.localAt other =
      if other = slot then some type
      else if other = slot + 1 ∧ type.width = 2 then some .top
      else frame.localAt other := by
  have splits : frame.splitsWide slot = false := by
    rw [Bool.eq_false_iff]
    intro splits
    obtain ⟨_, _, _, isUpper, _⟩ := splitsWide_iff.mp splits
    rw [isEmpty] at isUpper
    cases isUpper
  simp only [localAt_setLocal stored, splits, Bool.false_eq_true, and_false, if_false]

/-! ## The first frame -/

theorem storeParameters_cons_iff {type : FieldType} {rest : List FieldType} {slot : Nat}
    {stored : Nat × Frame} :
    frame.storeParameters slot (type :: rest) = .ok stored ↔
      slot ≤ lastSlot ∧ ∃ middle, frame.setLocal slot (.ofField type) = .ok middle ∧
        middle.storeParameters (slot + (ValueType.ofField type).width) rest =
          .ok stored := by
  rw [storeParameters]
  split
  next beyond => simp [Nat.not_le.mpr beyond]
  next inReach => simp only [bind_eq_ok, Nat.not_lt.mp inReach, true_and]

/-- The values that a method is entered with: the receiver, if there is one, then the
parameters. -/
def arguments (receiver : Option BinaryName) (descriptor : MethodDescriptor) :
    List FieldType :=
  receiver.toList.map .object ++ descriptor.parameters

/-- The receiver is stored like any other parameter. -/
theorem entry_eq (receiver : Option BinaryName) (descriptor : MethodDescriptor)
    (maxLocals maxStack : Nat) :
    entry receiver descriptor maxLocals maxStack = do
      let (stop, frame) ← (empty maxLocals maxStack).storeParameters 0
        (arguments receiver descriptor)
      return { frame with described := stop } := by
  cases receiver with
  | none => rfl
  | some owner =>
      have isFirst :
          arguments (some owner) descriptor = .object owner ::
            descriptor.parameters := rfl
      have isObject : ValueType.ofField (.object owner) = .object owner := rfl
      rw [isFirst, entry, storeParameters, if_neg (Nat.not_lt_zero lastSlot)]
      dsimp only
      rw [isObject]
      cases (empty maxLocals maxStack).setLocal 0 (.object owner) <;> rfl

theorem storeParameters_of_entry {receiver : Option BinaryName}
    {descriptor : MethodDescriptor} {maxLocals maxStack : Nat}
    (entered : entry receiver descriptor maxLocals maxStack = .ok after) :
    ∃ stop stored, (empty maxLocals maxStack).storeParameters 0
      (arguments receiver descriptor) =
      .ok (stop, stored) ∧ after = { stored with described := stop } := by
  rw [entry_eq] at entered
  obtain ⟨⟨stop, stored⟩, isStored, ⟨⟩⟩ := bind_eq_ok.mp entered
  exact ⟨stop, stored, isStored, rfl⟩

theorem entry_ne_noUpperSlot {receiver : Option BinaryName}
    {descriptor : MethodDescriptor} {maxLocals maxStack : Nat} :
    entry receiver descriptor maxLocals maxStack ≠ .error .noUpperSlot := by
  have stores (types : List FieldType) (frame : Frame) (slot : Nat) :
      frame.storeParameters slot types ≠ .error .noUpperSlot := by
    induction types generalizing frame slot with
    | nil => exact nofun
    | cons type rest ih =>
        rw [storeParameters]
        split
        · exact nofun
        · exact bind_ne_error setLocal_ne_noUpperSlot fun _ => ih _ _
  rw [entry_eq]
  exact bind_ne_error (stores _ _ _) nofun

/-- A condition that stores of the receiver and the parameters keep holds of the frame
at the start of a method. -/
theorem entry_induction {P : Frame → Prop} {receiver : Option BinaryName}
    {descriptor : MethodDescriptor} {maxLocals maxStack : Nat}
    (holds : P (empty maxLocals maxStack))
    (kept : ∀ before next slot type,
      ((∃ owner, type = .object owner) ∨ ∃ field ∈ descriptor.parameters,
        type = .ofField field) →
      P before → before.setLocal slot type = .ok next → P next)
    (described : ∀ before count, P before → P { before with described := count })
    (entered : entry receiver descriptor maxLocals maxStack = .ok after) : P after := by
  have stores (types : List FieldType) :
      (∀ type ∈ types, (∃ owner, .ofField type = ValueType.object owner) ∨
        ∃ field ∈ descriptor.parameters, ValueType.ofField type = .ofField field) →
      ∀ {before slot stop next},
      P before → before.storeParameters slot types = .ok (stop, next) → P next := by
    induction types with
    | nil =>
        intro _ before slot stop next holds stored
        cases stored
        exact holds
    | cons type rest ih =>
        intro given before slot stop next holds stored
        obtain ⟨isGiven, restGiven⟩ := List.forall_mem_cons.mp given
        obtain ⟨_, middle, first, stored⟩ := storeParameters_cons_iff.mp stored
        exact ih restGiven (kept _ _ _ _ isGiven holds first) stored
  obtain ⟨stop, stored, isStored, rfl⟩ := storeParameters_of_entry entered
  apply described
  refine stores _ (fun type member => ?_) holds isStored
  rcases List.mem_append.mp member with isReceiver | isParameter
  · obtain ⟨owner, _, rfl⟩ := List.mem_map.mp isReceiver
    exact .inl ⟨owner, rfl⟩
  · exact .inr ⟨type, isParameter, rfl⟩

/-! ## Execution -/

theorem Effect.size_locals {instruction : Instruction}
    (effect : frame.Effect instruction after) :
    after.locals.size = frame.locals.size := by
  cases effect with
  | load pushed => rw [(push_eq_ok pushed).2]
  | store lowers _ stored => rw [(setLocal_eq_ok stored).2.2, lowers.eq]
  | increment isEmpty stored => exact (setLocal_eq_ok stored).2.2
  | trade notLoad notStore trades => rw [trades.restacks.locals_eq]

theorem apply_of_execute {position : Nat} {instruction : Instruction}
    (executed : frame.execute position instruction = .ok after) :
    ∃ applied, frame.apply instruction = .ok applied ∧
      after = { applied with seeded := false } := by
  unfold execute at executed
  split at executed
  next => cases executed
  next =>
    split at executed
    next applied isApplied =>
      cases executed
      exact ⟨applied, isApplied, rfl⟩
    next => cases executed

theorem execute_eq_ok {position : Nat} {instruction : Instruction}
    (executed : frame.execute position instruction = .ok after) :
    ∃ applied, frame.Effect instruction applied ∧
      after = { applied with seeded := false } := by
  obtain ⟨applied, isApplied, isAfter⟩ := apply_of_execute executed
  exact ⟨applied, effect_of_apply isApplied, isAfter⟩

theorem execute_of_isPseudo {instruction : Instruction} (computed : frame.seeded = false)
    (isPseudo : instruction.isPseudo = true) (position : Nat) :
    frame.execute position instruction = .ok frame := by
  have same : { frame with seeded := false } = frame := by rw [← computed]
  cases instruction with
  | label | lineNumber | snapshot => exact congrArg Except.ok same
  | _ => cases isPseudo

end Frame

end LocalTable
