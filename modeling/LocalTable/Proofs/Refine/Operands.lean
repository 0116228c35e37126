import LocalTable.Proofs.Refine.Halves
import LocalTable.Proofs.Refine.Reaching
import LocalTable.Proofs.Refine.Rules
import LocalTable.Proofs.Refine.Spreading

/-!
# Operands and the stores behind them

What a rule does to an operand depends on the stores that are found for it.
-/

namespace LocalTable

/-! ## Outlines -/

namespace Frame

variable {frame after : Frame}

/-- The frame without the types of its locals and cells. -/
def outline (frame : Frame) : Frame :=
  { frame with
    locals := frame.locals.map fun _ => none
    stack := frame.stack.map fun cell => { cell with type := none } }

theorem outline_setLocal {slot : Nat} {type : ValueType}
    (stored : frame.setLocal slot type = .ok after) : after.outline = frame.outline := by
  obtain ⟨_, same, size_eq⟩ := setLocal_eq_ok stored
  rw [same]
  simp [outline, Array.map_const', size_eq]

theorem outline_retypeCell (distance : Nat) (type : Option ValueType) :
    (frame.retypeCell distance type).outline = frame.outline := by
  cases distance with
  | zero => rfl
  | succ above =>
      have same : (frame.stack.modify above fun cell => { cell with type := type }).map
          (fun cell => { cell with type := none }) =
            frame.stack.map fun cell => { cell with type := none } := by
        apply List.ext_getElem?
        intro index
        rw [List.getElem?_map, List.getElem?_map, List.getElem?_modify]
        cases frame.stack[index]? <;> split <;> rfl
      simp [outline, retypeCell, same]

@[simp] theorem depth_outline : frame.outline.depth = frame.depth :=
  List.length_map ..

/-- Frames of the same outline are equal if the types in them are. -/
theorem eq_of_outline {left right : Frame} (same : left.outline = right.outline)
    (locals : ∀ slot, left.localAt slot = right.localAt slot)
    (cells : ∀ distance, left.peek? distance = right.peek? distance) : left = right := by
  have locals_eq : left.locals = right.locals := by
    refine locals_ext ?_ locals
    simpa [outline] using congrArg (·.locals.size) same
  have stack_eq : left.stack = right.stack :=
    List.ext_getElem? fun above => cells (above + 1)
  cases left
  cases right
  simp_all [outline]

end Frame

namespace Frames

variable {frames left right : Frames} {position other : Nat}

def outline (frames : Frames) : Frames :=
  frames.map (Option.map Frame.outline)

/-- What a cell at a distance from the top holds. -/
def cellAt (frames : Frames) (position distance : Nat) : Option Cell :=
  (frames.at? position).bind (·.peek? distance)

def depthAt (frames : Frames) (position : Nat) : Option Nat :=
  (frames.at? position).map Frame.depth

theorem at?_outline (position : Nat) :
    frames.outline.at? position = (frames.at? position).map Frame.outline := by
  rw [at?_eq, at?_eq, outline, Array.getElem?_map]
  cases frames[position]? <;> rfl

theorem depthAt_outline (position : Nat) :
    frames.outline.depthAt position = frames.depthAt position := by
  rw [depthAt, at?_outline, depthAt]
  cases frames.at? position with
  | none => rfl
  | some frame => simp

theorem outline_put {old new : Frame} (there : frames.at? position = some old)
    (same : new.outline = old.outline) :
    (frames.put position new).outline = frames.outline := by
  apply Array.ext_getElem?
  intro index
  rw [outline, outline, put, Array.getElem?_map, Array.getElem?_map,
    Array.getElem?_setIfInBounds]
  split
  next here =>
    subst here
    rw [at?_eq] at there
    split
    next inBounds =>
      rw [Array.getElem?_eq_getElem inBounds] at there ⊢
      simp_all
    next outside =>
      rw [Array.getElem?_eq_none (Nat.le_of_not_lt outside)] at there
      cases there
  next => rfl

theorem eq_of_outline (same : left.outline = right.outline)
    (locals : ∀ position slot, left.localAt position slot = right.localAt position slot)
    (cells : ∀ position distance, left.cellAt position distance =
      right.cellAt position distance) :
    left = right := by
  have size_eq : left.size = right.size := by
    simpa [outline] using congrArg Array.size same
  have at_eq (position : Nat) : left.at? position = right.at? position := by
    have outlines := congrArg (·.at? position) same
    simp only [at?_outline] at outlines
    have locals := locals position
    have cells := cells position
    unfold localAt at locals
    unfold cellAt at cells
    cases isLeft : left.at? position with
    | none =>
        rw [isLeft, Option.map_none] at outlines
        exact (Option.map_eq_none_iff.mp outlines.symm).symm
    | some leftFrame =>
        cases isRight : right.at? position with
        | none => simp [isLeft, isRight] at outlines
        | some rightFrame =>
            simp only [isLeft, isRight, Option.bind_some, Option.map_some,
              Option.some.injEq] at outlines locals cells
            rw [Frame.eq_of_outline outlines locals cells]
  apply Array.ext size_eq
  intro index inLeft inRight
  simpa [at?_eq, inLeft, inRight] using at_eq index

end Frames

namespace Refinement

variable {refinement changed : Refinement} {position slot : Nat}
  {before after : ValueType}

section Retype

variable (retyped : refinement.retype position slot before after = .ok changed)
  (held : refinement.frames.localAt position slot = some before)

include retyped held

theorem outline_retype : changed.frames.outline = refinement.frames.outline := by
  obtain ⟨frame, next, there, stored, rfl⟩ := retype_eq_ok retyped held
  exact Frames.outline_put there (Frame.outline_setLocal stored)

theorem cellAt_retype (other distance : Nat) :
    changed.frames.cellAt other distance = refinement.frames.cellAt other distance := by
  obtain ⟨frame, next, there, stored, rfl⟩ := retype_eq_ok retyped held
  obtain ⟨_, same, _⟩ := Frame.setLocal_eq_ok stored
  have peeked : next.peek? distance = frame.peek? distance := by
    rw [same]
    cases distance <;> rfl
  rw [Frames.cellAt, Frames.at?_put]
  split
  next here =>
    rw [Frames.cellAt, here.1, there, Option.bind_some, Option.bind_some, peeked]
  next => rfl

/-- A narrow value that takes the place of another value touches no other local. -/
theorem localAt_retype_of_narrow (isValue : before ≠ .top) (isNarrow : after.width = 1)
    (other otherSlot : Nat) :
    changed.frames.localAt other otherSlot =
      if other = position ∧ otherSlot = slot then some after
      else refinement.frames.localAt other otherSlot := by
  obtain ⟨frame, next, there, stored, rfl⟩ := retype_eq_ok retyped held
  rw [Frames.localAt, there, Option.bind_some] at held
  have splits := Frame.splitsWide_of_value held isValue
  by_cases here : other = position
  · subst here
    rw [Frames.localAt_put_self there, Frame.localAt_setLocal stored,
      Frames.localAt, there]
    simp [splits, isNarrow]
  · rw [Frames.localAt_put_of_ne here, if_neg fun same => here same.1]

/-- Nothing changes if a narrow value gets its own type. -/
theorem frames_retype_self (isValue : before ≠ .top) (isNarrow : before.width = 1)
    (same : after = before) : changed.frames = refinement.frames := by
  subst same
  refine Frames.eq_of_outline (outline_retype retyped held) (fun other otherSlot => ?_)
    (cellAt_retype retyped held)
  rw [localAt_retype_of_narrow retyped held isValue isNarrow]
  split
  next here => rw [here.1, here.2, held]
  next => rfl

end Retype

theorem outline_retypeCell (position distance : Nat) (type : ValueType) :
    (refinement.retypeCell position distance type).frames.outline =
      refinement.frames.outline := by
  unfold retypeCell
  split
  next => rfl
  next frame there => exact Frames.outline_put there (Frame.outline_retypeCell ..)

theorem cellAt_retypeCell (position distance other otherDistance : Nat)
    (type : ValueType) :
    (refinement.retypeCell position distance type).frames.cellAt other otherDistance =
      if other = position ∧ otherDistance = distance then
        (refinement.frames.cellAt position distance).map fun cell =>
          { cell with type := some type }
      else refinement.frames.cellAt other otherDistance := by
  unfold retypeCell
  split
  next isNone =>
    split
    next here => simp [Frames.cellAt, here.1, isNone]
    next => rfl
  next frame there =>
    rw [Frames.cellAt, Frames.at?_put]
    by_cases here : other = position
    · subst here
      simp only [Frames.cellAt, there, true_and, Frames.lt_size_of_at? there,
        and_self, if_true]
      cases distance with
      | zero => cases otherDistance <;> simp [Frame.retypeCell, Frame.peek?]
      | succ above =>
          cases otherDistance with
          | zero => simp [Frame.peek?]
          | succ index =>
              simp only [Frame.retypeCell, Frame.peek?, Option.bind_some,
                List.getElem?_modify, Nat.add_right_cancel_iff]
              by_cases same : index = above
              · subst same
                simp
              · simp [same, Ne.symm same]
    · rw [if_neg fun same => here same.1, if_neg fun same => here same.1]
      rfl

/-- Nothing changes if a cell gets its own type. -/
theorem frames_retypeCell_self {position distance : Nat} {cell : Cell} {type : ValueType}
    (isCell : refinement.frames.cellAt position distance = some cell)
    (isType : cell.type = some type) :
    (refinement.retypeCell position distance type).frames = refinement.frames := by
  refine Frames.eq_of_outline (outline_retypeCell ..) (fun other slot => by simp)
    fun other otherDistance => ?_
  rw [cellAt_retypeCell]
  split
  next here => rw [here.1, here.2, isCell, Option.map_some, ← isType]
  next => rfl

end Refinement

/-! ## Stores behind a load -/

namespace Query

variable {hierarchy : Hierarchy} {scene : Scene} {frames : Frames} {position height : Nat}
  {expected : ValueType}

/-- The walk goes on from a position, unless the value has been pushed there, or is not
on the stack. -/
def GoesOnToLoad (scene : Scene) (frames : Frames) (height : Nat) (expected : ValueType)
    (position before : Nat) : Prop :=
  before ∈ scene.flow.predecessors position ∧ ∃ depth instruction,
    frames.depthAt position = some depth ∧
      scene.instructions[position]? = some instruction ∧
      if depth + expected.width = height then instruction.isPseudo = true
        else height ≤ depth

/-- The instruction pushes the value by a load from the slot, which holds a type that
fits. -/
def LoadsFor (hierarchy : Hierarchy) (scene : Scene) (frames : Frames) (height : Nat)
    (expected : ValueType) (slot : Nat) (type : ValueType) (load : Nat) : Prop :=
  ∃ depth kind, frames.depthAt load = some depth ∧ depth + expected.width = height ∧
    scene.instructions[load]? = some (.load kind slot) ∧
      frames.localAt load slot = some type ∧
    (isCompatible type expected : Query hierarchy _).eval = .ok true

theorem mem_storesOfLoad_iff {frame : Frame} {instruction : Instruction}
    {stores : List Nat} {store : Nat} (there : frames.at? position = some frame)
    (isInstruction : scene.instructions[position]? = some instruction)
    (isHeight : frame.depth + expected.width = height)
    (answered : (storesOfLoad scene frames position frame instruction expected :
      Query hierarchy _).eval = .ok stores) :
    store ∈ stores ↔ ∃ slot type,
      LoadsFor hierarchy scene frames height expected slot type position ∧
        FoundFrom hierarchy scene frames slot type expected position store := by
  -- Where nothing fits, nothing is found.
  have nothing (isAnswer : stores = [])
      (misfit : ∀ slot type, ¬LoadsFor hierarchy scene frames height expected slot
        type position) :
      store ∈ stores ↔ ∃ slot type,
        LoadsFor hierarchy scene frames height expected slot type position ∧
          FoundFrom hierarchy scene frames slot type expected position store := by
    simp [isAnswer, misfit]
  unfold storesOfLoad at answered
  split at answered
  next kind slot =>
    split at answered
    next isEmpty =>
      refine nothing (Except.ok.inj answered).symm ?_
      rintro other type ⟨_, _, _, _, isLoad, held, _⟩
      cases isInstruction.symm.trans isLoad
      rw [Frames.localAt, there, Option.bind_some, isEmpty] at held
      cases held
    next type held =>
      have isHeld : frames.localAt position slot = some type :=
        Frames.localAt_eq_some.mpr ⟨frame, there, held⟩
      obtain ⟨fits, isFitting, answered⟩ := eval_bind_eq_ok.mp answered
      cases fits with
      | true =>
          rw [mem_reachingStores_iff answered]
          constructor
          · intro found
            refine ⟨slot, type, ⟨frame.depth, kind, ?_, isHeight, isInstruction, isHeld,
              isFitting⟩, found⟩
            rw [Frames.depthAt, there, Option.map_some]
          · rintro ⟨_, _, ⟨_, _, _, _, isLoad, alsoHeld, _⟩, found⟩
            cases isInstruction.symm.trans isLoad
            cases isHeld.symm.trans alsoHeld
            exact found
      | false =>
          refine nothing (Except.ok.inj answered).symm ?_
          rintro other type ⟨_, _, _, _, isLoad, alsoHeld, alsoFits⟩
          cases isInstruction.symm.trans isLoad
          cases isHeld.symm.trans alsoHeld
          cases isFitting.symm.trans alsoFits
  next notLoad =>
    refine nothing (Except.ok.inj answered).symm ?_
    rintro other type ⟨_, kind, _, _, isLoad, _⟩
    exact notLoad kind other (Option.some.inj (isInstruction.symm.trans isLoad))

theorem collects_visitForLoad :
    Walk.Collects (visitForLoad scene frames height expected : _ → _ → Query hierarchy _)
      (GoesOnToLoad scene frames height expected)
      (fun load store => ∃ slot type,
        LoadsFor hierarchy scene frames height expected slot type load ∧
          FoundFrom hierarchy scene frames slot type expected load store) := by
  intro position state next onward visited
  unfold visitForLoad at visited
  split at visited
  next frame instruction there isInstruction =>
    have isDepth : frames.depthAt position = some frame.depth := by
      rw [Frames.depthAt, there, Option.map_some]
    have leads (other : Nat) : GoesOnToLoad scene frames height expected position other ↔
        other ∈ scene.flow.predecessors position ∧
          if frame.depth + expected.width = height then instruction.isPseudo = true
          else height ≤ frame.depth := by
      simp [GoesOnToLoad, isDepth, isInstruction]
    -- Off the height of the value, no load pushes it.
    have loadsElsewhere (notHeight : frame.depth + expected.width ≠ height) (slot : Nat)
        (type : ValueType) :
        ¬LoadsFor hierarchy scene frames height expected slot type position := by
      rintro ⟨_, _, alsoDepth, isHeight, _⟩
      cases isDepth.symm.trans alsoDepth
      exact notHeight isHeight
    split at visited
    next isHeight =>
      obtain ⟨reaching, answered, visited⟩ := eval_bind_eq_ok.mp visited
      have finds (store : Nat) : store ∈ reaching ↔ _ :=
        mem_storesOfLoad_iff there isInstruction isHeight answered
      dsimp only at visited
      split at visited
      next isPseudo =>
        cases visited
        simp [leads, isHeight, isPseudo, mem_foldl_appendNew, finds]
      next notPseudo =>
        cases visited
        simp [leads, isHeight, notPseudo, mem_foldl_appendNew, finds]
    next notHeight =>
      split at visited
      next isBelow =>
        cases visited
        simp [leads, notHeight, loadsElsewhere notHeight, Nat.not_le_of_lt isBelow]
      next notBelow =>
        cases visited
        simp [leads, notHeight, loadsElsewhere notHeight, Nat.le_of_not_lt notBelow]
  next nothing =>
    cases visited
    have missing {depth : Nat} {instruction : Instruction}
        (isDepth : frames.depthAt position = some depth)
        (isInstruction : scene.instructions[position]? = some instruction) : False := by
      obtain ⟨frame, there, _⟩ := Option.map_eq_some_iff.mp isDepth
      exact nothing frame instruction there isInstruction
    refine ⟨fun other => ⟨by simp, ?_⟩, fun store => ⟨.inl, ?_⟩⟩
    · rintro ⟨_, _, _, isDepth, isInstruction, _⟩
      exact (missing isDepth isInstruction).elim
    · rintro (member | ⟨_, _, ⟨_, _, isDepth, _, isInstruction, _⟩, _⟩)
      · exact member
      · exact (missing isDepth isInstruction).elim

/-- The walks back from a position come to a load that has pushed the value at the
height, and from there to the store. -/
def Feeds (hierarchy : Hierarchy) (scene : Scene) (frames : Frames)
    (position height : Nat) (expected : ValueType) (slot load store : Nat) : Prop :=
  Walk.Explored scene.instructions.size (GoesOnToLoad scene frames height expected)
      (scene.flow.predecessors position).reverse load ∧
    ∃ type, LoadsFor hierarchy scene frames height expected slot type load ∧
      FoundFrom hierarchy scene frames slot type expected load store

theorem mem_loadedStores_iff {stores : List Nat} {store : Nat}
    (answered : (loadedStores scene frames position height expected :
      Query hierarchy _).eval =
      .ok stores) :
    store ∈ stores ↔
      ∃ slot load, Feeds hierarchy scene frames position height expected slot
        load store := by
  rw [Walk.mem_run_iff collects_visitForLoad answered]
  constructor
  · rintro (impossible | ⟨load, isExplored, slot, type, loads, found⟩)
    · cases impossible
    · exact ⟨slot, load, isExplored, type, loads, found⟩
  · rintro ⟨slot, load, isExplored, type, loads, found⟩
    exact .inr ⟨load, isExplored, slot, type, loads, found⟩

end Query

/-! ## Operands -/

namespace Refine

variable {hierarchy : Hierarchy} {scene : Scene} {position above : Nat}
  {state after : Refinement} {expected earlier : ValueType} {result : Option ValueType}
  {stores : List Nat}

/-- Whatever types locals and cells get, the frames keep their outline. -/
theorem indifferent_outline (hierarchy : Hierarchy) (scene : Scene) (outline : Frames) :
    Indifferent hierarchy scene (fun _ => True) fun refinement =>
      refinement.frames.outline = outline where
  missing _ := trivial
  retype _ _ _ _ := by
    refine retypeFrom_keeps fun _ _ spreads _ same => ?_
    cases spreads with
    | passes => exact same
    | refines held _ retyped => exact (Refinement.outline_retype retyped held).trans same
    | widens held _ _ _ retyped =>
        exact (Refinement.outline_retype retyped held).trans same
  retypeCell _ _ _ same := (Refinement.outline_retypeCell ..).trans same

theorem cellAt_retypeFrom {start slot : Nat} {type : ValueType}
    (ran :
      ((retypeFrom scene start slot expected type : Refine hierarchy _).run state).eval =
      .ok ((), after)) (other distance : Nat) :
    after.frames.cellAt other distance = state.frames.cellAt other distance := by
  have keeps : Maintains (fun _ => True)
      (fun refinement =>
        refinement.frames.cellAt other distance = state.frames.cellAt other distance)
      (retypeFrom scene start slot expected type : Refine hierarchy _) fun _ => True := by
    refine retypeFrom_keeps fun _ _ spreads _ same => ?_
    cases spreads with
    | passes => exact same
    | refines held _ retyped =>
        exact (Refinement.cellAt_retype retyped held ..).trans same
    | widens held _ _ _ retyped =>
        exact (Refinement.cellAt_retype retyped held ..).trans same
  exact ((keeps state rfl).1 _ ran).1

theorem retypeAll_nil_eq_ok {type : ValueType}
    (ran : ((retypeAll scene [] type : Refine hierarchy _).run state).eval =
      .ok ((), after)) :
    after = state := by
  cases ran
  rfl

theorem retypeAll_cons_eq_ok {store : Nat} {type : ValueType}
    (ran :
      ((retypeAll scene (store :: stores) type : Refine hierarchy _).run state).eval =
      .ok ((), after)) :
    ∃ middle,
      (∀ slot stored, scene.storedAt? state.frames store = some (slot, stored) →
        ((retypeFrom scene (store + 1) slot stored type : Refine hierarchy _).run
          state).eval = .ok ((), middle)) ∧
      (scene.storedAt? state.frames store = none → middle = state) ∧
      ((retypeAll scene stores type : Refine hierarchy _).run middle).eval =
        .ok ((), after) := by
  obtain ⟨⟨_, middle⟩, first, rest⟩ := Query.eval_bind_eq_ok.mp ran
  obtain ⟨⟨_, _⟩, ⟨⟩, first⟩ := Query.eval_bind_eq_ok.mp first
  dsimp only at first
  refine ⟨middle, fun slot stored isStored => ?_, fun isNone => ?_, rest⟩
  · rw [isStored] at first
    exact first
  · rw [isNone] at first
    cases first
    rfl

/-- What is kept whenever the local behind one of the stores is changed is kept in the
end. -/
theorem retypeAll_keeps {type : ValueType} {I : Refinement → Prop} (holds : I state)
    (step : ∀ store ∈ stores, ∀ slot stored earlier later, I earlier →
      scene.storedAt? earlier.frames store = some (slot, stored) →
      ((retypeFrom scene (store + 1) slot stored type : Refine hierarchy _).run
        earlier).eval = .ok ((), later) → I later)
    (ran : ((retypeAll scene stores type : Refine hierarchy _).run state).eval =
      .ok ((), after)) : I after := by
  induction stores generalizing state with
  | nil =>
      cases retypeAll_nil_eq_ok ran
      exact holds
  | cons store rest ih =>
      obtain ⟨stepFirst, stepRest⟩ := List.forall_mem_cons.mp step
      obtain ⟨middle, first, idle, others⟩ := retypeAll_cons_eq_ok ran
      refine ih ?_ stepRest others
      cases isStored : scene.storedAt? state.frames store with
      | none => exact idle isStored ▸ holds
      | some stored => exact stepFirst _ _ _ _ holds isStored (first _ _ isStored)

theorem cellAt_retypeAll {type : ValueType}
    (ran : ((retypeAll scene stores type : Refine hierarchy _).run state).eval =
      .ok ((), after))
    (other distance : Nat) :
    after.frames.cellAt other distance = state.frames.cellAt other distance :=
  retypeAll_keeps (I := fun refinement => refinement.frames.cellAt other distance = _) rfl
    (fun _ _ _ _ _ _ same _ spread =>
      (cellAt_retypeFrom spread other distance).trans same) ran

theorem retypeStores_eq_ok {common : ValueType}
    (isCommon : (Query.commonStored scene state.frames stores : Query hierarchy _).eval =
      .ok (some common))
    (ran : ((retypeStores scene stores expected : Refine hierarchy _).run state).eval =
      .ok (result, after)) :
    ((retypeAll scene stores (if shouldRetype common expected then expected else common) :
        Refine hierarchy _).run state).eval = .ok ((), after) ∧
      (Query.commonStored scene after.frames stores : Query hierarchy _).eval =
        .ok result := by
  unfold retypeStores at ran
  obtain ⟨⟨_, _⟩, ⟨⟩, ran⟩ := Query.eval_bind_eq_ok.mp ran
  obtain ⟨⟨answer, _⟩, asked, ran⟩ := Query.eval_bind_eq_ok.mp ran
  obtain ⟨_, alsoCommon, ⟨⟩⟩ := Query.eval_bind_eq_ok.mp asked
  cases isCommon.symm.trans alsoCommon
  obtain ⟨⟨_, middle⟩, retyped, ran⟩ := Query.eval_bind_eq_ok.mp ran
  obtain ⟨⟨_, _⟩, ⟨⟩, ran⟩ := Query.eval_bind_eq_ok.mp ran
  obtain ⟨_, isResult, ⟨⟩⟩ := Query.eval_bind_eq_ok.mp ran
  exact ⟨retyped, isResult⟩

theorem cellAt_retypeStores
    (ran : ((retypeStores scene stores expected : Refine hierarchy _).run state).eval =
      .ok (result, after)) (other distance : Nat) :
    after.frames.cellAt other distance = state.frames.cellAt other distance := by
  obtain ⟨⟨_, _⟩, ⟨⟩, rest⟩ := Query.eval_bind_eq_ok.mp ran
  obtain ⟨⟨common, _⟩, asked, rest⟩ := Query.eval_bind_eq_ok.mp rest
  obtain ⟨_, isCommon, ⟨⟩⟩ := Query.eval_bind_eq_ok.mp asked
  cases common with
  | none =>
      cases rest
      rfl
  | some common =>
      exact cellAt_retypeAll (retypeStores_eq_ok isCommon ran).1 other distance

section Operand

variable {operand : Operand}

/-- Where no stores are found for an operand, it is left as it is.  Otherwise its stores
are refined, and its cell gets their type. -/
theorem before_eq_ok
    (isOperand : operand? state.frames position above expected = some operand)
    (ran : ((before scene position above expected : Refine hierarchy _).run state).eval =
      .ok (result, after)) :
    (result = operand.cell.type ∧ after = state ∧ (operand.cell.source.isSome = true →
      (Query.loadedStores scene state.frames position operand.height expected :
        Query hierarchy _).eval = .ok [])) ∨
    ∃ stores middle, stores ≠ [] ∧ operand.cell.source.isSome = true ∧
      (Query.loadedStores scene state.frames position operand.height expected :
        Query hierarchy _).eval = .ok stores ∧
      ((retypeStores scene stores expected : Refine hierarchy _).run state).eval =
        .ok (result, middle) ∧
      after = result.elim middle (middle.retypeCell position operand.distance) := by
  unfold before at ran
  obtain ⟨⟨_, _⟩, ⟨⟩, ran⟩ := Query.eval_bind_eq_ok.mp ran
  dsimp only at ran
  rw [isOperand] at ran
  dsimp only at ran
  split at ran
  next noSource =>
    cases ran
    exact .inl ⟨rfl, rfl, fun hasSource => by simp_all⟩
  next hasSource =>
    obtain ⟨⟨_, _⟩, ⟨⟩, ran⟩ := Query.eval_bind_eq_ok.mp ran
    obtain ⟨⟨stores, _⟩, asked, ran⟩ := Query.eval_bind_eq_ok.mp ran
    obtain ⟨_, answered, ⟨⟩⟩ := Query.eval_bind_eq_ok.mp asked
    dsimp only at ran
    split at ran
    next isEmpty =>
      cases ran
      rw [List.isEmpty_iff.mp isEmpty] at answered
      exact .inl ⟨rfl, rfl, fun _ => answered⟩
    next nonempty =>
      obtain ⟨⟨type, middle⟩, retyped, ran⟩ := Query.eval_bind_eq_ok.mp ran
      refine .inr ⟨stores, middle, by simpa using nonempty,
        by simpa [Option.isSome_iff_ne_none] using hasSource, answered, ?_⟩
      cases type with
      | none =>
          cases ran
          exact ⟨retyped, rfl⟩
      | some type =>
          cases ran
          exact ⟨retyped, rfl⟩

/-- The stores of an operand get their earlier type back, and so does its cell. -/
theorem restore_eq_ok
    (isOperand : operand? state.frames position above expected = some operand)
    (ran :
      ((restore scene position above earlier expected : Refine hierarchy _).run
        state).eval =
      .ok ((), after)) :
    operand.cell.source.isSome = false ∧ after = state ∨
    ∃ stores middle, operand.cell.source.isSome = true ∧
      (Query.loadedStores scene state.frames position operand.height expected :
        Query hierarchy _).eval = .ok stores ∧
      ((retypeAll scene stores earlier : Refine hierarchy _).run state).eval =
        .ok ((), middle) ∧
      after = middle.retypeCell position operand.distance earlier := by
  unfold restore at ran
  obtain ⟨⟨_, _⟩, ⟨⟩, ran⟩ := Query.eval_bind_eq_ok.mp ran
  dsimp only at ran
  rw [isOperand] at ran
  dsimp only at ran
  split at ran
  next hasSource =>
    obtain ⟨⟨_, _⟩, ⟨⟩, ran⟩ := Query.eval_bind_eq_ok.mp ran
    obtain ⟨⟨stores, _⟩, asked, ran⟩ := Query.eval_bind_eq_ok.mp ran
    obtain ⟨_, answered, ⟨⟩⟩ := Query.eval_bind_eq_ok.mp asked
    obtain ⟨⟨_, middle⟩, retyped, ran⟩ := Query.eval_bind_eq_ok.mp ran
    cases ran
    exact .inr ⟨stores, middle, hasSource, answered, retyped, rfl⟩
  next noSource =>
    cases ran
    exact .inl ⟨by simpa using noSource, rfl⟩

end Operand

/-- The only cell that changes is that of the operand. -/
theorem cellAt_before
    (ran : ((before scene position above expected : Refine hierarchy _).run state).eval =
      .ok (result, after)) {other distance : Nat}
    (elsewhere : ¬(other = position ∧ distance = above + expected.width)) :
    after.frames.cellAt other distance = state.frames.cellAt other distance := by
  cases isOperand : operand? state.frames position above expected with
  | none =>
      obtain ⟨⟨_, _⟩, ⟨⟩, ran⟩ := Query.eval_bind_eq_ok.mp ran
      dsimp only at ran
      rw [isOperand] at ran
      cases ran
      rfl
  | some operand =>
      obtain ⟨_, _, _, isDistance, _⟩ := operand?_eq_some isOperand
      rcases before_eq_ok isOperand ran with
        ⟨_, rfl, _⟩ | ⟨stores, middle, _, _, _, retyped, rfl⟩
      · rfl
      · rw [← cellAt_retypeStores retyped]
        cases result with
        | none => rfl
        | some type =>
            rw [Option.elim_some, Refinement.cellAt_retypeCell, isDistance,
              if_neg elsewhere]

theorem cellAt_restore
    (ran :
      ((restore scene position above earlier expected : Refine hierarchy _).run
        state).eval =
      .ok ((), after)) {other distance : Nat}
    (elsewhere : ¬(other = position ∧ distance = above + expected.width)) :
    after.frames.cellAt other distance = state.frames.cellAt other distance := by
  cases isOperand : operand? state.frames position above expected with
  | none =>
      obtain ⟨⟨_, _⟩, ⟨⟩, ran⟩ := Query.eval_bind_eq_ok.mp ran
      dsimp only at ran
      rw [isOperand] at ran
      cases ran
      rfl
  | some operand =>
      obtain ⟨_, _, _, isDistance, _⟩ := operand?_eq_some isOperand
      rcases restore_eq_ok isOperand ran with
        ⟨_, rfl⟩ | ⟨stores, middle, _, _, retyped, rfl⟩
      · rfl
      · rw [Refinement.cellAt_retypeCell, isDistance, if_neg elsewhere,
          cellAt_retypeAll retyped]

theorem cellType?_eq_ok {distance : Nat}
    (ran : ((cellType? position distance : Refine hierarchy _).run state).eval =
      .ok (result, after)) :
    result = (state.frames.cellAt position distance).bind (·.type) ∧ after = state := by
  cases ran
  exact ⟨(Option.bind_assoc ..).symm, rfl⟩

/-- An attempt fails at once if an operand has no type.  Otherwise it tries the upper
operand and then the lower one, and takes back what it has done to the one that has
become a boolean. -/
theorem tryBooleans_eq_false
    (ran : ((tryBooleans scene position : Refine hierarchy _).run state).eval =
      .ok (false, after)) :
    after = state ∨ ∃ right left rightResult leftResult first second,
      (state.frames.cellAt position 1).bind (·.type) = some right ∧
      (state.frames.cellAt position 2).bind (·.type) = some left ∧
      ((before scene position 0 .boolean : Refine hierarchy _).run state).eval =
        .ok (rightResult, first) ∧
      ((before scene position 1 .boolean : Refine hierarchy _).run first).eval =
        .ok (leftResult, second) ∧
      (rightResult = some .boolean ∧ leftResult ≠ some .boolean ∧
          ((restore scene position 0 right .boolean : Refine hierarchy _).run
            second).eval = .ok ((), after) ∨
        rightResult ≠ some .boolean ∧ leftResult = some .boolean ∧
          ((restore scene position 1 left .boolean : Refine hierarchy _).run
            second).eval = .ok ((), after) ∨
        rightResult ≠ some .boolean ∧ leftResult ≠ some .boolean ∧ after = second) := by
  unfold tryBooleans at ran
  obtain ⟨⟨right, _⟩, isRight, rest⟩ := Query.eval_bind_eq_ok.mp ran
  obtain ⟨⟨left, _⟩, isLeft, attempt⟩ := Query.eval_bind_eq_ok.mp rest
  obtain ⟨isRight, rfl⟩ := cellType?_eq_ok isRight
  obtain ⟨isLeft, rfl⟩ := cellType?_eq_ok isLeft
  cases right with
  | none =>
      cases attempt
      exact .inl rfl
  | some right =>
      cases left with
      | none =>
          cases attempt
          exact .inl rfl
      | some left =>
          obtain ⟨⟨rightResult, first⟩, rightRan, attempt⟩ :=
            Query.eval_bind_eq_ok.mp attempt
          obtain ⟨⟨leftResult, second⟩, leftRan, attempt⟩ :=
            Query.eval_bind_eq_ok.mp attempt
          refine .inr ⟨right, left, rightResult, leftResult, first, second, isRight.symm,
            isLeft.symm, rightRan, leftRan, ?_⟩
          dsimp only at attempt
          by_cases rightDone : rightResult = some .boolean
          · by_cases leftDone : leftResult = some .boolean
            · rw [if_pos (by simp [rightDone, leftDone])] at attempt
              cases attempt
            · rw [if_neg (by simp [leftDone]), if_pos rightDone] at attempt
              obtain ⟨⟨_, third⟩, restored, attempt⟩ := Query.eval_bind_eq_ok.mp attempt
              dsimp only at attempt
              rw [if_neg leftDone] at attempt
              cases attempt
              exact .inl ⟨rightDone, leftDone, restored⟩
          · rw [if_neg (by simp [rightDone]), if_neg rightDone] at attempt
            by_cases leftDone : leftResult = some .boolean
            · rw [if_pos leftDone] at attempt
              obtain ⟨⟨_, third⟩, restored, ⟨⟩⟩ := Query.eval_bind_eq_ok.mp attempt
              exact .inr (.inl ⟨rightDone, leftDone, restored⟩)
            · rw [if_neg leftDone] at attempt
              cases attempt
              exact .inr (.inr ⟨rightDone, leftDone, rfl⟩)

end Refine

end LocalTable
