import LocalTable.Proofs.Refine.Passes

/-!
# Upper halves in refined frames

Refining a method gives new types to locals and cells that are there, and does nothing
else.  So what holds whatever these types are holds of all refined frames, without any
condition on the method: they have the locals of the method, and there is no value right
above a wide one.
-/

namespace LocalTable

variable {hierarchy : Hierarchy} {maxLocals : Nat}

/-! ## Stores are looked up -/

namespace Query

variable {scene : Scene} {frames : Frames} {position slot height : Nat}
  {type expected : ValueType}

theorem looksUp_reachingStores :
    (reachingStores scene frames position slot type expected :
      Query hierarchy _).LooksUp := by
  refine Walk.looksUp_run fun store stores => ?_
  unfold visitForStore
  split
  next =>
    split
    next => exact .pure _
    next =>
      refine .bind (looksUp_isCompatible _ _) fun fitsLocal => ?_
      split
      next =>
        refine .bind (looksUp_isCompatible _ _) fun fits => ?_
        split
        next => exact .pure _
        next => exact .pure _
      next => exact .pure _
  next => exact .pure _

theorem looksUp_storesOfLoad {frame : Frame} {instruction : Instruction} :
    (storesOfLoad scene frames position frame instruction expected :
      Query hierarchy _).LooksUp := by
  unfold storesOfLoad
  split
  next =>
    split
    next => exact .pure _
    next =>
      refine .bind (looksUp_isCompatible _ _) fun fits => ?_
      split
      next => exact looksUp_reachingStores
      next => exact .pure _
  next => exact .pure _

theorem looksUp_loadedStores :
    (loadedStores scene frames position height expected : Query hierarchy _).LooksUp := by
  refine Walk.looksUp_run fun source stores => ?_
  unfold visitForLoad
  split
  next =>
    split
    next =>
      refine .bind looksUp_storesOfLoad fun reaching => ?_
      dsimp only
      split
      next => exact .pure _
      next => exact .pure _
    next =>
      split
      next => exact .pure _
      next => exact .pure _
  next => exact .pure _

theorem looksUp_commonStored {stores : List Nat} :
    (commonStored scene frames stores : Query hierarchy _).LooksUp := by
  have joins (types : List ValueType) (common : ValueType) :
      (commonStored.joinAll common types : Query hierarchy _).LooksUp := by
    induction types generalizing common with
    | nil => exact .pure _
    | cons type rest ih =>
        refine .bind (looksUp_join _ _) fun joined => ?_
        cases joined with
        | none => exact .pure _
        | some joined => exact ih joined
  unfold commonStored
  dsimp only
  split
  next => exact .pure _
  next => exact joins _ _

end Query

/-! ## Invariants that do not depend on types -/

namespace Refine

/-- An invariant that is kept whatever types locals and cells get. -/
structure Indifferent (hierarchy : Hierarchy) (scene : Scene) (E : Error → Prop)
    (I : Refinement → Prop) : Prop where
  missing (name : BinaryName) : E (.unresolvedClass name)
  retype (position slot : Nat) (expected type : ValueType) :
    Maintains E I
      (retypeFrom scene position slot expected type : Refine hierarchy _) fun _ => True
  retypeCell {refinement : Refinement} (position distance : Nat) (type : ValueType)
    (holds : I refinement) : I (refinement.retypeCell position distance type)

variable {scene : Scene} {E : Error → Prop} {I : Refinement → Prop}

namespace Indifferent

variable (indifferent : Indifferent hierarchy scene E I)

include indifferent

theorem ask {α : Type} {query : Query hierarchy α} (looksUp : query.LooksUp) :
    Maintains E I (ask query) fun _ => True :=
  .ask ⟨.trivial, looksUp.failsOnly indifferent.missing⟩

theorem retypeAll (stores : List Nat) (type : ValueType) :
    Maintains E I (retypeAll scene stores type : Refine hierarchy _)
      fun _ => True := by
  refine .forM fun store _ => .bind .get fun refinement _ => ?_
  split
  next => exact indifferent.retype _ _ _ _
  next => exact .pure trivial

theorem retypeStores (stores : List Nat) (expected : ValueType) :
    Maintains E I (retypeStores scene stores expected : Refine hierarchy _)
      fun _ => True := by
  unfold Refine.retypeStores
  refine .bind .get fun _ _ =>
    .bind (indifferent.ask Query.looksUp_commonStored) fun common _ => ?_
  split
  next => exact .pure trivial
  next =>
    refine .bind (indifferent.retypeAll stores _) fun _ _ => ?_
    exact .bind .get fun _ _ => indifferent.ask Query.looksUp_commonStored

theorem before (position above : Nat) (expected : ValueType) :
    Maintains E I (before scene position above expected : Refine hierarchy _)
      fun _ => True := by
  unfold Refine.before
  refine .bind .get fun _ _ => ?_
  split
  next => exact .pure trivial
  next operand _ =>
    split
    next => exact .pure trivial
    next =>
      refine .bind .get fun _ _ => ?_
      refine .bind (indifferent.ask Query.looksUp_loadedStores) fun stores _ => ?_
      split
      next => exact .pure trivial
      next =>
        refine .bind (indifferent.retypeStores stores expected) fun result _ => ?_
        split
        next =>
          refine .bind (P := fun _ => True) (.modify fun _ holds => ?_) fun _ _ =>
            .pure trivial
          exact indifferent.retypeCell _ _ _ holds
        next => exact .pure trivial

theorem restore (position above : Nat) (earlier type : ValueType) :
    Maintains E I (restore scene position above earlier type : Refine hierarchy _)
      fun _ => True := by
  unfold Refine.restore
  refine .bind .get fun _ _ => ?_
  split
  next => exact .pure trivial
  next =>
    split
    next =>
      refine .bind .get fun _ _ => ?_
      refine .bind (indifferent.ask Query.looksUp_loadedStores) fun stores _ => ?_
      refine .bind (indifferent.retypeAll stores earlier) fun _ _ =>
        .modify fun _ holds => ?_
      exact indifferent.retypeCell _ _ _ holds
    next => exact .pure trivial

theorem tryBooleans (position : Nat) :
    Maintains E I (tryBooleans scene position : Refine hierarchy _)
      fun _ => True := by
  unfold Refine.tryBooleans
  refine .bind cellType?_maintains fun right _ =>
    .bind cellType?_maintains fun left _ => ?_
  split
  next right left =>
    refine .bind (indifferent.before _ _ _) fun rightResult _ => ?_
    refine .bind (indifferent.before _ _ _) fun leftResult _ => ?_
    have restoresLeft : Maintains E I
        (if leftResult = some .boolean then do
          Refine.restore scene position 1 left .boolean
          return false
        else return false : Refine hierarchy Bool) fun _ => True := by
      split
      next => exact .bind (indifferent.restore _ _ _ _) fun _ _ => .pure trivial
      next => exact .pure trivial
    dsimp only
    split
    next => exact .pure trivial
    next =>
      split
      next => exact .bind (indifferent.restore _ _ _ _) fun _ _ => restoresLeft
      next => exact restoresLeft
  next => exact .pure trivial

theorem after (position : Nat) (expected : ValueType) :
    Maintains E I (after scene position expected : Refine hierarchy _)
      fun _ => True := by
  refine Walk.run_holds (Maintains E I) .pure .bind (R := fun _ => True) ?_
    (fun _ _ => trivial) trivial
  intro consumer _ _ _
  have stops {onward : List Nat} : Maintains E I
      (pure ((), onward) : Refine hierarchy (Unit × List Nat))
      fun visited => True ∧ ∀ next ∈ visited.2, True :=
    .pure ⟨trivial, fun _ _ => trivial⟩
  unfold visitForConsumer
  split
  next => exact stops
  next =>
    refine .bind .get fun _ _ => ?_
    split
    next => exact .bind (indifferent.retype _ _ _ _) fun _ _ => stops
    next => exact stops
  next => exact stops
  next =>
    split
    next => exact stops
    next => exact stops

theorem sustains : Sustains hierarchy scene E I where
  before _ above expected := indifferent.before _ above expected
  after := indifferent.after
  tryBooleans _ := indifferent.tryBooleans _
  increment position slot amount := by
    refine .bind .get fun _ _ => ?_
    dsimp only
    split
    next =>
      refine .bind (indifferent.ask Query.looksUp_reachingStores) fun stores _ => ?_
      exact .bind (indifferent.retypeStores stores _) fun _ _ => .pure trivial
    next => exact .pure trivial

theorem refineStore (position : Nat) (instruction : Instruction) :
    Maintains E I (refineStore scene position instruction : Refine hierarchy _)
      fun _ => True := by
  unfold Refine.refineStore
  split
  next =>
    refine .bind .get fun _ _ => ?_
    split
    next =>
      split
      next =>
        split
        next => exact indifferent.retype _ _ _ _
        next => exact .pure trivial
      next => exact .pure trivial
    next => exact .pure trivial
  next => exact .pure trivial

end Indifferent

end Refine

/-! ## Halves -/

/-- The frame has the locals of the method, and no value right above a wide one. -/
structure Frame.Halved (maxLocals : Nat) (frame : Frame) : Prop where
  size_eq : frame.locals.size = maxLocals
  upper {slot : Nat} {type : ValueType} (held : frame.localAt slot = some type)
    (isWide : type.width = 2) :
    frame.localAt (slot + 1) = some .top ∨ frame.localAt (slot + 1) = none

/-- A local can get any type in place of the one that it has. -/
theorem Frame.Halved.setLocal {frame after : Frame} {slot : Nat}
    {expected type : ValueType} (halved : frame.Halved maxLocals)
    (held : frame.localAt slot = some expected)
    (stored : frame.setLocal slot type = .ok after) : after.Halved maxLocals := by
  refine ⟨(setLocal_eq_ok stored).2.2.trans halved.size_eq,
    fun {other wide} isHeld isWide => ?_⟩
  rw [localAt_setLocal stored] at isHeld ⊢
  split at isHeld
  next isSlot =>
    cases isHeld
    rw [if_neg (by omega), if_pos ⟨by omega, isWide⟩]
    exact .inl rfl
  next notSlot =>
    split at isHeld
    next =>
      cases isHeld
      cases isWide
    next =>
      split at isHeld
      next => cases isHeld
      next isKept =>
        have isUpper := halved.upper isHeld isWide
        have notAbove : other + 1 ≠ slot := by
          rintro rfl
          -- An upper half in the slot would have been split off.
          rcases isUpper with isTop | isEmpty
          · exact isKept ⟨rfl, splitsWide_iff.mpr ⟨other, wide, rfl, isTop,
              isHeld, isWide⟩⟩
          · cases isEmpty.symm.trans held
        rw [if_neg notAbove, if_neg (by omega)]
        split
        next => exact .inr rfl
        next => exact isUpper

theorem Frame.TrimmedTo.halved {live : IndexSet} {computed trimmed : Frame}
    (shaped : computed.Shaped maxLocals) (trims : computed.TrimmedTo live trimmed) :
    trimmed.Halved maxLocals :=
  ⟨trims.size_eq.trans shaped.size_eq,
    fun held isWide => (trims.upper shaped ⟨_, _, rfl, held, isWide⟩).2⟩

/-- There are as many frames as before, and their halves are in order. -/
def Refinement.Halved (size maxLocals : Nat) (refinement : Refinement) : Prop :=
  refinement.frames.size = size ∧
    Query.AllFrames (Frame.Halved maxLocals) refinement.frames

namespace Refinement.Halved

variable {size : Nat} {refinement : Refinement}

theorem put {position : Nat} {frame : Frame} (halved : refinement.Halved size maxLocals)
    (frameHalved : frame.Halved maxLocals) :
    { refinement with frames := refinement.frames.put position frame }.Halved size
      maxLocals := by
  refine ⟨(Frames.size_put ..).trans halved.1, fun other held there => ?_⟩
  rw [Frames.at?_put] at there
  split at there
  next =>
    cases there
    exact frameHalved
  next => exact halved.2 other held there

theorem indifferent (hierarchy : Hierarchy) (scene : Scene) (size maxLocals : Nat) :
    Refine.Indifferent hierarchy scene (fun _ => True)
    (Refinement.Halved size maxLocals) where
  missing _ := trivial
  retype position slot expected type := by
    refine Refine.retypeFrom_maintains (R := fun _ => True)
      ⟨fun _ => trivial, trivial⟩ ⟨trivial, fun _ _ => trivial,
        fun _ halved => halved, ?_⟩ trivial
    intro refinement position type halved held _
    refine ⟨fun changed retyped => ?_, fun _ _ => trivial⟩
    obtain ⟨frame, there, held⟩ := Frames.localAt_eq_some.mp held
    rw [Query.eval_ofExcept, Refinement.retype, there] at retyped
    dsimp only at retyped
    split at retyped
    next after stored =>
      cases retyped
      exact halved.put ((halved.2 _ _ there).setLocal held stored)
    next => cases retyped
  retypeCell position distance type halved := by
    unfold Refinement.retypeCell
    split
    next => exact halved
    next frame there =>
      refine halved.put ?_
      have frameHalved := halved.2 _ _ there
      cases distance with
      | zero => exact frameHalved
      | succ above => exact ⟨frameHalved.size_eq, frameHalved.upper⟩

end Refinement.Halved

namespace Query

/-- Refined frames have their halves in order, whatever the method is. -/
theorem halved_of_refine {body : Body} {flow : Flow} {frames refined : Frames}
    (halved : AllFrames (Frame.Halved body.code.maxLocals) frames)
    (isRefined : (refine body flow frames : Query hierarchy _).eval = .ok refined) :
    refined.size = frames.size ∧
    AllFrames (Frame.Halved body.code.maxLocals) refined := by
  obtain ⟨refinement, isRefinement, ⟨⟩⟩ := eval_bind_eq_ok.mp isRefined
  have indifferent := Refinement.Halved.indifferent hierarchy
    (Scene.ofBody body flow) frames.size body.code.maxLocals
  exact (refinement_guarantees indifferent.sustains (fun _ => id)
    (fun position instruction _ => indifferent.refineStore position instruction)
    ⟨rfl, halved⟩).ensures _ isRefinement

end Query

end LocalTable
