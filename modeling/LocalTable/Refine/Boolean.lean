import LocalTable.Refine

/-!
# Stored booleans

The machine has no boolean values: a condition is turned into a value by a
branch between the constants zero and one.  A store whose value can only come
from such a branch, or from something that is known to be boolean, stores a
boolean.
-/

namespace LocalTable.Scene

/-- What an instruction says about the value on top of the stack after it. -/
inductive Verdict where
  /-- It is a boolean. -/
  | accept
  /-- It is something else. -/
  | reject
  /-- It is not known, and does not matter. -/
  | ignore
  /-- It is not known; the instructions before may tell. -/
  | lookFurther
  deriving DecidableEq

/-- The verdict on a value that either is a boolean or is none. -/
def Verdict.ofBool (isBoolean : Bool) : Verdict :=
  if isBoolean then .accept else .reject

/-- What the instruction at a position says about the value on top of the stack.
A conditional branch is the sign of a condition that is turned into a value. -/
def verdict (frames : Frames) (position : Nat) : Instruction → Verdict
  | .label _ | .lineNumber _ | .snapshot _ | .goto _ => .lookFurther
  | .intConstant value => if value = 0 ∨ value = 1 then .lookFurther else .reject
  | .load .int slot =>
      match frames.at? position with
      | some frame => .ofBool (frame.localAt slot = some .boolean)
      | none => .ignore
  | .getField field | .getStatic field => .ofBool (field.type = .base .boolean)
  | .invoke _ method => .ofBool (method.descriptor.result = some (.base .boolean))
  | .invokeDynamic site => .ofBool (site.descriptor.result = some (.base .boolean))
  | .branchZero _ _ | .branchInt _ _ | .branchRef _ _ | .branchNull _ _ => .accept
  | _ => .reject

/-- Where to look next.  Values that come from before the start of the method
are no booleans. -/
def lookBefore (scene : Scene) (position : Nat) : Option (List Nat) :=
  match scene.flow.predecessors position with
  | [] => none
  | positions => some positions

/-- Visit a position on the way to the origin of a value, with the fact whether
a boolean was found.  Anything else than a boolean ends the search. -/
def visitForBoolean (scene : Scene) (frames : Frames) (position : Nat) (accepted : Bool) :
    Option (Bool × List Nat) :=
  match scene.instructions[position]? with
  | none => some (accepted, [])
  | some instruction =>
      match verdict frames position instruction with
      | .accept => some (true, [])
      | .reject => none
      | .ignore => some (accepted, [])
      | .lookFurther => (scene.lookBefore position).map (accepted, ·)

/-- Is every value that can reach the store a boolean? -/
def storesBoolean (scene : Scene) (frames : Frames) (store : Nat) : Bool :=
  match scene.lookBefore store with
  | none => false
  | some positions =>
      Walk.run scene.instructions.size (scene.visitForBoolean frames)
        positions.reverse ∅ false == some true

end LocalTable.Scene

namespace LocalTable.Refinement

/-- Number of `int` stores whose local has not been refined. -/
def openStores (refinement : Refinement) (instructions : Array Instruction) : Nat :=
  instructions.toList.zipIdx.countP fun (instruction, position) =>
    match instruction with
    | .store .int slot => !refinement.isRefined (position + 1) slot
    | _ => false

end LocalTable.Refinement

namespace LocalTable.Refine

variable {hierarchy : Hierarchy}

/-- Make the local of an unrefined `int` store a boolean if it can be nothing
else. -/
def refineStore (scene : Scene) (position : Nat) (instruction : Instruction) :
    Refine hierarchy Unit := do
  match instruction with
  | .store .int slot =>
      let refinement ← get
      if slot < refinement.refined.size && !refinement.isRefined (position + 1) slot then
        match refinement.frames.localAt (position + 1) slot with
        | some type =>
            if type ≠ .boolean && scene.storesBoolean refinement.frames position then
              retypeFrom scene (position + 1) slot type .boolean
        | none => pure ()
  | _ => pure ()

/-- Go through all stores once. -/
def sweepStores (scene : Scene) : Refine hierarchy Unit :=
  scene.instructions.toList.zipIdx.forM fun (instruction, position) =>
    refineStore scene position instruction

/-- Go through all stores until no more of them is refined. -/
def settleStores (scene : Scene) (refinement : Refinement) :
    Query hierarchy Refinement :=
  ((sweepStores scene).run refinement).bind fun ((), swept) =>
    if swept.openStores scene.instructions < refinement.openStores scene.instructions then
      settleStores scene swept
    else
      .done swept
termination_by refinement.openStores scene.instructions

end LocalTable.Refine
