import LocalTable.Proofs.Frame

/-!
# The operands of instructions

The demand of an instruction is the number of cells that executing it takes from the
stack. Popping lowers the stack by the width of what is popped, and nothing is pushed
before all operands are gone.  So the cells below the operands stay what they are, and a
stack that is shallower than the demand is a fault.

Locals are written by stores and increments only.  A store may reach the two neighbours of
its slot, an increment stays within its own.
-/

namespace LocalTable

theorem ValueType.width_eq_two {type : ValueType} :
    type.width = 2 ↔ type = .long ∨ type = .double := by
  cases type <;> simp [ValueType.width]

namespace Frame

variable {frame next after : Frame}

/-! ## Replacing operands by results -/

/-- The second frame arises from the first one by taking a number of cells away and
pushing others, with room for them on the stack. -/
structure Replaces (count : Nat) (before after : Frame) : Prop where
  enough : count ≤ before.stack.length
  below : ∃ pushed, after.stack = pushed ++ before.stack.drop count
  maxStack_eq : after.maxStack = before.maxStack
  fits : before.stack.length ≤ before.maxStack → after.stack.length ≤ after.maxStack

namespace Replaces

variable {count : Nat}

theorem refl (frame : Frame) : frame.Replaces 0 frame :=
  ⟨Nat.zero_le _, ⟨[], rfl⟩, rfl, id⟩

/-- Cells that stay below the operands may be counted as operands that come back. -/
theorem mono {more : Nat} (replaces : Replaces count frame after) (isMore : count ≤ more)
    (enough : more ≤ frame.stack.length) : Replaces more frame after := by
  obtain ⟨pushed, isStack⟩ := replaces.below
  refine ⟨enough, ⟨pushed ++ (frame.stack.drop count).take (more - count), ?_⟩,
    replaces.maxStack_eq, replaces.fits⟩
  have split := List.take_append_drop (more - count) (frame.stack.drop count)
  rw [List.drop_drop, Nat.add_sub_of_le isMore] at split
  rw [List.append_assoc, split, isStack]

theorem of_lowers (lowers : Lowers count frame next) (replaces : Replaces 0 next after) :
    Replaces count frame after := by
  obtain ⟨pushed, isStack⟩ := replaces.below
  refine ⟨lowers.enough, ⟨pushed, ?_⟩, ?_, fun fits => replaces.fits ?_⟩
  · rw [isStack, lowers.eq, List.drop_zero]
  · rw [replaces.maxStack_eq, lowers.eq]
  · rw [lowers.eq, List.length_drop]
    exact Nat.le_trans (Nat.sub_le ..) fits

theorem lowers (lowers : Lowers count frame next) : Replaces count frame next :=
  of_lowers lowers (refl next)

theorem push {type : ValueType} {source : Option Nat}
    (pushed : frame.push type source = .ok next) :
    Replaces 0 frame next := by
  obtain ⟨room, rfl⟩ := push_eq_ok pushed
  refine ⟨Nat.zero_le _, ⟨_, List.append_cons ..⟩, rfl, fun _ => ?_⟩
  rcases type.width_eq_one_or_two with
    isWidth | isWidth <;> simp [isWidth] at room ⊢ <;> omega

/-- The stack is not touched by what happens to locals. -/
theorem setLocal {slot : Nat} {type : ValueType} (replaces : Replaces count frame next)
    (stored : next.setLocal slot type = .ok after) : Replaces count frame after := by
  rw [(setLocal_eq_ok stored).2.1]
  exact ⟨replaces.enough, replaces.below, replaces.maxStack_eq, replaces.fits⟩

theorem pushCell {cell : Cell} (pushed : frame.pushCell cell = .ok next) :
    Replaces 0 frame next := by
  unfold Frame.pushCell at pushed
  split at pushed
  next room =>
    cases pushed
    exact ⟨Nat.zero_le _, ⟨[cell], rfl⟩, rfl, fun _ => room⟩
  next => cases pushed

theorem pushCells {cells : List Cell}
    (pushed : cells.foldlM Frame.pushCell frame = .ok next) :
    Replaces 0 frame next := by
  induction cells generalizing frame with
  | nil =>
      cases pushed
      exact refl _
  | cons cell rest ih =>
      rw [List.foldlM_cons] at pushed
      obtain ⟨middle, first, pushed⟩ := bind_eq_ok.mp pushed
      have first := pushCell first
      have second := ih pushed
      obtain ⟨lower, isMiddle⟩ := first.below
      obtain ⟨upper, isNext⟩ := second.below
      refine ⟨Nat.zero_le _, ⟨upper ++ lower, ?_⟩,
        second.maxStack_eq.trans first.maxStack_eq, fun fits =>
          second.fits (first.fits fits)⟩
      rw [isNext, isMiddle, List.drop_zero, List.append_assoc]

theorem shuffle {order : List Nat} (shuffled : frame.shuffle count order = .ok next) :
    Replaces count frame next := by
  unfold Frame.shuffle at shuffled
  split at shuffled
  next => cases shuffled
  next enough => exact of_lowers ⟨Nat.le_of_not_lt enough, rfl⟩ (pushCells shuffled)

end Replaces

/-- The cells that an instruction trades are as many as it demands. -/
theorem Trades.replaces {instruction : Instruction}
    (trades : frame.Trades instruction next) (notReturn : instruction.isReturn = false)
    (notThrow : instruction.isThrow = false) :
    Replaces instruction.stackDemand frame next := by
  cases trades with
  | pops lowers => exact .lowers lowers
  | pushes lowers _ pushed => exact .of_lowers lowers (.push pushed)
  | moves shuffled => exact .shuffle shuffled
  | copies isTop pushed =>
      have enough : 0 < frame.stack.length := (List.getElem?_eq_some_iff.mp isTop).1
      exact (Replaces.pushCell pushed).mono (Nat.zero_le _) enough
  | leaves isReturn => cases notReturn.symm.trans isReturn
  | throws => cases notThrow

/-- An instruction replaces what it demands, whatever else it does. -/
theorem Effect.replaces {instruction : Instruction}
    (effect : frame.Effect instruction next) (notReturn : instruction.isReturn = false)
    (notThrow : instruction.isThrow = false) :
    Replaces instruction.stackDemand frame next := by
  cases effect with
  | load pushed => exact .push pushed
  | store lowers _ stored => exact (Replaces.lowers lowers).setLocal stored
  | increment _ stored => exact (Replaces.refl frame).setLocal stored
  | trade _ _ trades => exact trades.replaces notReturn notThrow


/-! ## Locals -/

/-- All that a store does to the locals.  It fills its slot, it empties the slot below if
the upper half of a wide value was overwritten, and it puts the upper half of a wide value
into the slot above. -/
structure StoresAt (slot : Nat) (type : ValueType) (before after : Frame) : Prop where
  written : after.localAt slot = some type
  below {lower : Nat} (isBelow : lower + 1 = slot)
    (changed : after.localAt lower ≠ before.localAt lower) :
    after.localAt lower = none ∧
      (before.localAt lower = some .long ∨ before.localAt lower = some .double)
  above (changed : after.localAt (slot + 1) ≠ before.localAt (slot + 1)) :
    after.localAt (slot + 1) = some .top ∧ type.width = 2
  others {other : Nat} (notBelow : other + 1 ≠ slot) (notSlot : other ≠ slot)
    (notAbove : other ≠ slot + 1) : after.localAt other = before.localAt other

theorem storesAt_of_setLocal {slot : Nat} {type : ValueType}
    (stored : frame.setLocal slot type = .ok after) : StoresAt slot type frame after := by
  have localAt (other : Nat) := localAt_setLocal stored other
  constructor
  · rw [localAt, if_pos rfl]
  · rintro lower rfl changed
    rw [localAt, if_neg (by omega), if_neg (by omega)] at changed ⊢
    split at changed
    next splits =>
      obtain ⟨_, held, ⟨⟩, _, isHeld, isWide⟩ := splitsWide_iff.mp splits.2
      rw [if_pos splits, isHeld]
      rcases ValueType.width_eq_two.mp isWide with rfl | rfl
      · exact ⟨rfl, .inl rfl⟩
      · exact ⟨rfl, .inr rfl⟩
    next => exact absurd rfl changed
  · intro changed
    rw [localAt, if_neg (by omega)] at changed ⊢
    split at changed
    next isWide => exact ⟨if_pos isWide, isWide.2⟩
    next => exact absurd (if_neg (by omega)) changed
  · intro other notBelow notSlot notAbove
    rw [localAt, if_neg notSlot, if_neg (by simp [notAbove]), if_neg (by simp [notBelow])]

/-- An empty slot is no upper half, so an `int` in it changes no other slot. -/
theorem localAt_setLocal_of_empty {slot other : Nat} (isEmpty : frame.localAt slot = none)
    (stored : frame.setLocal slot .int = .ok after) (isOther : other ≠ slot) :
    after.localAt other = frame.localAt other := by
  rw [localAt_setLocal_into_empty isEmpty stored, if_neg isOther,
    if_neg (by simp [ValueType.width])]

theorem locals_of_effect {instruction : Instruction}
    (effect : frame.Effect instruction after)
    (notStore : ∀ kind slot, instruction ≠ .store kind slot)
    (notIncrement : ∀ slot amount, instruction ≠ .increment slot amount) :
    after.locals = frame.locals := by
  cases effect with
  | load pushed => rw [(push_eq_ok pushed).2]
  | store => exact absurd rfl (notStore _ _)
  | increment => exact absurd rfl (notIncrement _ _)
  | trade _ _ trades => exact trades.restacks.locals_eq

theorem execute_eq_error {position : Nat} {instruction : Instruction} {error : Error}
    (supported : instruction.unsupported? = none)
    (failed : frame.execute position instruction = .error error) :
    ∃ fault, error = .frame position fault := by
  unfold execute at failed
  rw [supported] at failed
  dsimp only at failed
  split at failed
  next => cases failed
  next fault _ =>
    cases failed
    exact ⟨fault, rfl⟩

/-- Executing an instruction, other than one that leaves the method or throws, fails if
the stack is shallower than its demand.  Otherwise it keeps the cells below its operands
and does not overrun the stack.  Locals change only where a store or an increment
writes: a store changes its slot and may split a wide value below it or put an upper
half above it, and an increment makes an empty slot an `int`. -/
theorem instructions_touch_operands_and_slot (instruction : Instruction)
    (supported : instruction.unsupported? = none)
    (notReturn : instruction.isReturn = false) (notThrow : instruction.isThrow = false)
    (frame : Frame) (position : Nat) :
    (frame.depth < instruction.stackDemand →
      ∃ fault, frame.execute position instruction = .error (.frame position fault)) ∧
    ∀ after, frame.execute position instruction = .ok after →
      (∃ pushed, after.stack = pushed ++ frame.stack.drop instruction.stackDemand) ∧
      after.maxStack = frame.maxStack ∧
      (frame.depth ≤ frame.maxStack → after.depth ≤ after.maxStack) ∧
      after.locals.size = frame.locals.size ∧
      ((∀ kind slot, instruction ≠ .store kind slot) →
        (∀ slot amount, instruction ≠ .increment slot amount) →
          after.locals = frame.locals) ∧
      (∀ kind slot, instruction = .store kind slot →
        ∃ cell, frame.peek? kind.width = some cell ∧
          StoresAt slot (cell.type.getD kind.assumed) frame after) ∧
      ∀ slot amount, instruction = .increment slot amount →
        ∀ other, after.localAt other ≠ frame.localAt other →
          other = slot ∧ frame.localAt slot = none ∧ after.localAt slot = some .int := by
  constructor
  · intro shallow
    cases outcome : frame.execute position instruction with
    | error error =>
        obtain ⟨fault, rfl⟩ := execute_eq_error supported outcome
        exact ⟨fault, rfl⟩
    | ok after =>
        obtain ⟨applied, isApplied, _⟩ := apply_of_execute outcome
        have enough := ((effect_of_apply isApplied).replaces notReturn notThrow).enough
        exact absurd shallow (Nat.not_lt.mpr enough)
  · intro after executed
    obtain ⟨applied, isApplied, rfl⟩ := apply_of_execute executed
    have effect := effect_of_apply isApplied
    have replaces := effect.replaces notReturn notThrow
    have locals_eq := locals_of_effect effect
    refine ⟨replaces.below, replaces.maxStack_eq, replaces.fits,
      effect.size_locals, locals_eq, ?_, ?_⟩
    · rintro kind slot rfl
      cases effect with
      | trade _ notStore => cases notStore
      | store lowers isCell stored =>
          obtain rfl := lowers.eq
          have stores := storesAt_of_setLocal stored
          exact ⟨_, isCell, stores.written, stores.below, stores.above, stores.others⟩
    · rintro slot amount rfl other changed
      simp only [apply] at isApplied
      split at isApplied
      next isEmpty =>
        rw [Option.isNone_iff_eq_none] at isEmpty
        by_cases isOther : other = slot
        · exact ⟨isOther, isEmpty, (storesAt_of_setLocal isApplied).written⟩
        · exact absurd (localAt_setLocal_of_empty isEmpty isApplied isOther) changed
      next =>
        cases isApplied
        exact absurd rfl changed

/-- A wide local, and above an `int` that was loaded from the third slot a wide value
that is about to be stored onto its upper half. -/
def splittingFrame : Frame :=
  { locals := #[some .long, some .top, some .int]
    stack := [⟨some .top, none⟩, ⟨some .double, none⟩, ⟨some .int, some 2⟩]
    maxStack := 3
    described := 2
    seeded := true }

/-- The store needs both cells.  It empties the slot below, takes the slot above, and
leaves the `int` on the stack alone. -/
theorem splitting_store_touches_neighbours :
    (∃ fault, splittingFrame.clearStack.execute 5 (.store .double 1) =
      .error (.frame 5 fault)) ∧
      ∃ after, splittingFrame.execute 5 (.store .double 1) = .ok after ∧
        (∃ pushed, after.stack = pushed ++ [⟨some .int, some 2⟩]) ∧ after.depth ≤ 3 ∧
        StoresAt 1 .double splittingFrame after ∧
        (List.range 3).map after.localAt = [none, some .double, some .top] := by
  obtain ⟨fails, _⟩ := instructions_touch_operands_and_slot (.store .double 1) rfl rfl rfl
    splittingFrame.clearStack 5
  obtain ⟨_, touches⟩ :=
    instructions_touch_operands_and_slot (.store .double 1) rfl rfl rfl
    splittingFrame 5
  obtain ⟨below, _, fits, _, _, stores, _⟩ := touches _ rfl
  obtain ⟨cell, isCell, stores⟩ := stores .double 1 rfl
  cases isCell
  exact ⟨fails (by decide), _, rfl, below, fits (by decide), stores, by decide⟩

end Frame

end LocalTable
