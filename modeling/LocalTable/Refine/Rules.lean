import LocalTable.Refine.Boolean
import LocalTable.Refine.Stores

/-!
# What instructions say about types

Three passes go over the instructions of a method.  The first one uses declared
types: fields, parameters, results, arrays and conversions.  The second one uses
operations that no boolean takes part in.  The third one uses operations that
suggest booleans.  After them, stores that can only hold booleans are refined.
-/

namespace LocalTable.Refine

variable {hierarchy : Hierarchy}

/-- An operand of an instruction: the height of the stack up to it, the distance
of its lowest cell from the top, and this cell. -/
structure Operand where
  height : Nat
  distance : Nat
  cell : Cell

/-- The operand of the expected type below a number of cells. -/
def operand? (frames : Frames) (position above : Nat) (expected : ValueType) :
    Option Operand := do
  let frame ← frames.at? position
  let distance := above + expected.width
  let cell ← frame.peek? distance
  return ⟨frame.depth - above, distance, cell⟩

/-- The type of a cell at a distance from the top. -/
def cellType? (position distance : Nat) : Refine hierarchy (Option ValueType) := do
  let refinement ← get
  return (refinement.frames.at? position).bind fun frame =>
    (frame.peek? distance).bind (·.type)

/-- Give the locals behind several stores the same type. -/
def retypeAll (scene : Scene) (stores : List Nat) (type : ValueType) :
    Refine hierarchy Unit :=
  stores.forM fun store => do
    match scene.storedAt? (← get).frames store with
    | some (slot, stored) => retypeFrom scene (store + 1) slot stored type
    | none => pure ()

/-- Give several stores the same refined type, and return the type that their
locals end up with.  There is none if the stores cannot agree. -/
def retypeStores (scene : Scene) (stores : List Nat) (expected : ValueType) :
    Refine hierarchy (Option ValueType) := do
  match ← ask (Query.commonStored scene (← get).frames stores) with
  | none => return none
  | some common =>
      retypeAll scene stores (if shouldRetype common expected then expected else common)
      ask (Query.commonStored scene (← get).frames stores)

/-- Refine the stores that an operand comes from, and return the type that the
operand ends up with.  `above` counts the cells over the operand. -/
def before (scene : Scene) (position above : Nat) (expected : ValueType) :
    Refine hierarchy (Option ValueType) := do
  match operand? (← get).frames position above expected with
  | none => return none
  | some operand =>
      if operand.cell.source.isNone then
        return operand.cell.type
      else
        let stores ← ask
          (Query.loadedStores scene (← get).frames position operand.height expected)
        if stores.isEmpty then
          return operand.cell.type
        else
          let type ← retypeStores scene stores expected
          match type with
          | some type => modify (·.retypeCell position operand.distance type)
          | none => pure ()
          return type

/-- Take back what was done to the stores that an operand comes from. -/
def restore (scene : Scene) (position above : Nat) (earlier type : ValueType) :
    Refine hierarchy Unit := do
  match operand? (← get).frames position above type with
  | none => pure ()
  | some operand =>
      if operand.cell.source.isSome then
        let stores ← ask
          (Query.loadedStores scene (← get).frames position operand.height type)
        retypeAll scene stores earlier
        modify (·.retypeCell position operand.distance earlier)

/-- Visit a position on the way to the store that consumes a value. -/
def visitForConsumer (scene : Scene) (expected : ValueType) (position : Nat) (_ : Unit) :
    Refine hierarchy (Unit × List Nat) := do
  match scene.instructions[position]? with
  | none => return ((), [])
  | some (.store _ slot) =>
      match (← get).frames.localAt (position + 1) slot with
      | some type =>
          let refined := if shouldRetype type expected then expected else type
          retypeFrom scene (position + 1) slot type refined
      | none => pure ()
      return ((), [])
  | some (.goto _) => return ((), scene.flow.onward position)
  | some instruction =>
      if instruction.isPseudo then return ((), scene.flow.onward position)
      else return ((), [])

/-- Refine the store that consumes the value pushed at a position. -/
def after (scene : Scene) (position : Nat) (expected : ValueType) :
    Refine hierarchy Unit :=
  Walk.run scene.instructions.size (visitForConsumer scene expected)
    (scene.flow.onward position).reverse ∅ ()

/-- The type of the components of an array at a distance from the top. -/
def componentAt? (position distance : Nat) : Refine hierarchy (Option ValueType) := do
  return (← cellType? position distance).bind ValueType.component?

/-- Refine the arguments of a call, the last one first, and return the number of
their cells. -/
def arguments (scene : Scene) (position above : Nat) :
    List FieldType → Refine hierarchy Nat
  | [] => return above
  | parameter :: rest => do
      let type := ValueType.ofField parameter
      let _ ← before scene position above type
      arguments scene position (above + type.width) rest

/-- Refine what goes into a call and what comes out of it. -/
def call (scene : Scene) (position : Nat) (descriptor : MethodDescriptor)
    (receiver : Option RefType) : Refine hierarchy Unit := do
  let above ← arguments scene position 0 descriptor.parameters.reverse
  match receiver with
  | some owner =>
      let _ ← before scene position above (.reference owner)
  | none => pure ()
  match descriptor.result with
  | some type => after scene position (.ofField type)
  | none => pure ()

/-- Types that fields, methods, arrays, conversions and returns demand or give. -/
def applyContext (scene : Scene) (position : Nat) : Instruction → Refine hierarchy Unit
  | .arrayLoad _ => do
      match ← componentAt? position 2 with
      | some component => after scene position component
      | none => pure ()
  | .arrayStore element => do
      match ← componentAt? position (2 + element.width) with
      | some component =>
          let _ ← before scene position 0 component
      | none => pure ()
  | .convert _ .int => after scene position .int
  | .narrow target => do
      let _ ← before scene position 0 .int
      after scene position target.type
  | .getField field => do
      let _ ← before scene position 0 (.object field.owner)
      after scene position (.ofField field.type)
  | .getStatic field => after scene position (.ofField field.type)
  | .putField field => do
      let type := ValueType.ofField field.type
      let _ ← before scene position 0 type
      let _ ← before scene position type.width (.object field.owner)
  | .putStatic field => do
      let _ ← before scene position 0 (.ofField field.type)
  | .invoke kind method =>
      call scene position method.descriptor
        (if kind = .static then none else some method.owner)
  | .invokeDynamic site => call scene position site.descriptor none
  | .returnValue _ => do
      match scene.result with
      | some type =>
          let _ ← before scene position 0 type
      | none => pure ()
  | _ => pure ()

/-- Arithmetic takes an `int` in place of a boolean. -/
def arithmeticType (type : ValueType) : ValueType :=
  if type = .boolean then .int else type

/-- Refine an operand with its own type, as far as arithmetic can take it. -/
def arithmeticBefore (scene : Scene) (position above : Nat) : Refine hierarchy Unit := do
  match ← cellType? position (above + 1) with
  | some type =>
      let _ ← before scene position above (arithmeticType type)
  | none => pure ()

/-- Refine an operand with its own type. -/
def sameBefore (scene : Scene) (position above : Nat) : Refine hierarchy Unit := do
  match ← cellType? position (above + 1) with
  | some type =>
      let _ ← before scene position above type
  | none => pure ()

/-- Operations that no boolean takes part in, or that tie operands together. -/
def applyRestriction (scene : Scene) (position : Nat) :
    Instruction → Refine hierarchy Unit
  | .intConstant value =>
      if value = 0 ∨ value = 1 then pure () else after scene position .int
  | .pushByte _ | .pushShort _ => after scene position .int
  | .arithmetic _ .int => do
      match ← cellType? position 1, ← cellType? position 2 with
      | some right, some left =>
          let right := arithmeticType right
          let left := arithmeticType left
          let right := (← before scene position 0 right).getD right
          let left := (← before scene position 1 left).getD left
          after scene position (.intJoin left right)
      | _, _ => pure ()
  | .shiftInt _ => do
      arithmeticBefore scene position 0
      match ← cellType? position 2 with
      | some type =>
          let type := arithmeticType type
          let type := (← before scene position 1 type).getD type
          after scene position type
      | none => pure ()
  | .shiftLong _ => arithmeticBefore scene position 0
  | .increment slot _ => do
      let frames := (← get).frames
      match frames.localAt position slot with
      | some type =>
          let stores ← ask (Query.reachingStores scene frames position slot type .int)
          let _ ← retypeStores scene stores .int
      | none => pure ()
  | .branchZero comparison _ =>
      if comparison.isOrdering then arithmeticBefore scene position 0 else pure ()
  | .branchNull _ _ => sameBefore scene position 0
  | .branchInt comparison _ =>
      if comparison.isOrdering then do
        arithmeticBefore scene position 0
        arithmeticBefore scene position 1
      else
        pure ()
  | .branchRef _ _ => do
      sameBefore scene position 0
      sameBefore scene position 1
  | _ => pure ()

/-- Try to make both operands booleans.  If only one of them can be, it is
changed back. -/
def tryBooleans (scene : Scene) (position : Nat) : Refine hierarchy Bool := do
  match ← cellType? position 1, ← cellType? position 2 with
  | some right, some left =>
      let rightDone := (← before scene position 0 .boolean) = some .boolean
      let leftDone := (← before scene position 1 .boolean) = some .boolean
      if leftDone && rightDone then
        return true
      else
        if rightDone then restore scene position 0 right .boolean
        if leftDone then restore scene position 1 left .boolean
        return false
  | _, _ => return false

/-- Operations that suggest booleans. -/
def applyLogic (scene : Scene) (position : Nat) : Instruction → Refine hierarchy Unit
  | .logicInt _ => do
      if ← tryBooleans scene position then
        after scene position .boolean
      else
        after scene position .int
  | .branchZero comparison _ => do
      if comparison.isOrdering then
        pure ()
      else
        let _ ← before scene position 0 .boolean
  | .branchInt comparison _ => do
      if comparison.isOrdering then
        pure ()
      else
        let _ ← tryBooleans scene position
  | _ => pure ()

/-- Apply a rule to every instruction that has a frame, in order. -/
def pass (scene : Scene) (rule : Nat → Instruction → Refine hierarchy Unit) :
    Refine hierarchy Unit :=
  scene.instructions.toList.zipIdx.forM fun (instruction, position) => do
    if ((← get).frames.at? position).isSome then rule position instruction

/-- Run all passes. -/
def passes (scene : Scene) : Refine hierarchy Unit := do
  pass scene (applyContext scene)
  pass scene (applyRestriction scene)
  pass scene (applyLogic scene)

end LocalTable.Refine

namespace LocalTable.Query

variable {hierarchy : Hierarchy}

/-- Refine the frames of a method, and keep the changes on the way. -/
def refinement (body : Body) (flow : Flow) (frames : Frames) :
    Query hierarchy Refinement := do
  let scene := Scene.ofBody body flow
  let ((), passed) ← (Refine.passes scene).run (.start frames body.code.maxLocals)
  Refine.settleStores scene passed

/-- Refine the frames of a method. -/
def refine (body : Body) (flow : Flow) (frames : Frames) : Query hierarchy Frames := do
  return (← refinement body flow frames).frames

end LocalTable.Query
