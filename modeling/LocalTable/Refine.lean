import LocalTable.Frames
import LocalTable.Walk

/-!
# Refining the types of locals

Frames know what the machine knows: `boolean`, `byte`, `char` and `short` all
look like `int`, and a local that only ever holds null has no class.  How values
are used tells more.  A value that flows into a field, a parameter, an array or
a result has the type that is declared there, and this type is given to the
stores that the value comes from.  A value that flows out of such a place gives
its type to the next store.

A local at a position is refined from scratch once.  After that its type can
only be widened.

This module holds the state of a refinement and the way in which a new type
spreads from a store; the rules for single instructions are in
`LocalTable.Refine.Rules`.
-/

namespace LocalTable

/-- One change of the type of a local at a position. -/
structure Retyping where
  position : Nat
  slot : Nat
  before : ValueType
  after : ValueType
  deriving DecidableEq

/-- The frames as refined so far, for each slot the positions at which it has
been refined, and all changes, the latest first. -/
structure Refinement where
  frames : Frames
  refined : Array IndexSet
  changes : List Retyping

/-- What a refinement works on. -/
structure Scene where
  instructions : Array Instruction
  flow : Flow
  result : Option ValueType

namespace Scene

/-- The scene of a method with its flow. -/
def ofBody (body : Body) (flow : Flow) : Scene :=
  ⟨body.instructions, flow, body.descriptor.result.map ValueType.ofField⟩

/-- The slot that a store writes, and the type that it holds afterwards. -/
def storedAt? (scene : Scene) (frames : Frames) (store : Nat) :
    Option (Nat × ValueType) := do
  let slot ← scene.instructions[store]?.bind Instruction.stored?
  let type ← frames.localAt (store + 1) slot
  return (slot, type)

end Scene

/-- Should a local of the first type get the second one, which is more precise? -/
def shouldRetype (type expected : ValueType) : Bool :=
  if expected.isNarrowerThanInt then type = .int
  else type.isReference && expected.isReference && type = .null

namespace Refinement

/-- A refinement that has changed nothing yet. -/
def start (frames : Frames) (maxLocals : Nat) : Refinement :=
  ⟨frames, Array.replicate maxLocals ∅, []⟩

/-- Has the slot been refined at the position? -/
def isRefined (refinement : Refinement) (position slot : Nat) : Bool :=
  (refinement.refined.getD slot ∅).contains position

/-- Record that the slot is refined at the position. -/
def markRefined (refinement : Refinement) (position slot : Nat) : Refinement :=
  { refinement with refined := refinement.refined.modify slot (·.insert position) }

/-- Give the local at a position a new type. -/
def retype (refinement : Refinement) (position slot : Nat) (before after : ValueType) :
    Except Error Refinement :=
  match refinement.frames.at? position with
  | none => .ok refinement
  | some frame =>
      match frame.setLocal slot after with
      | .ok changed =>
          .ok { refinement with
            frames := refinement.frames.put position changed
            changes := ⟨position, slot, before, after⟩ :: refinement.changes }
      | .error fault => .error (.frame position fault)

/-- Change the type of a cell at a position. -/
def retypeCell (refinement : Refinement) (position distance : Nat) (type : ValueType) :
    Refinement :=
  match refinement.frames.at? position with
  | none => refinement
  | some frame =>
      { refinement with
        frames := refinement.frames.put position (frame.retypeCell distance (some type)) }

end Refinement

/-- Computations that refine frames. -/
abbrev Refine (hierarchy : Hierarchy) := StateT Refinement (Query hierarchy)

namespace Query

variable {hierarchy : Hierarchy}

/-- Can a local of this type hold a value that is used as the expected type? -/
def isCompatible (type expected : ValueType) : Query hierarchy Bool :=
  if type = expected then
    return true
  else if expected.isNarrowerThanInt then
    return type = .int
  else
    match expected with
    | .int => return type = .char || type = .byte || type = .short
    | .float | .long | .double => return false
    | _ =>
        if type.isReference && expected.isReference then
          if type = .null then
            return true
          else
            return (← join type expected) = some expected
        else
          return false

/-- A new type on its way through a method: the refinement so far, and the
positions to go to with the types to spread there, the next one first. -/
structure Spreading where
  refinement : Refinement
  pending : List (Nat × ValueType)

/-- Give the new type to the local at the next position, as long as the local
still has the type that it had at the start.  A local that has been refined
before is widened instead. -/
def spreadStep (flow : Flow) (slot : Nat) (expected : ValueType) (spreading : Spreading) :
    Query hierarchy (Spreading ⊕ Refinement) :=
  match spreading.pending with
  | [] => return .inr spreading.refinement
  | (position, type) :: rest =>
      let refinement := spreading.refinement
      if refinement.frames.localAt position slot ≠ some expected then
        return .inl { spreading with pending := rest }
      else if !refinement.isRefined position slot then
        go (refinement.markRefined position slot) position type rest
      else if type = expected then
        return .inl { spreading with pending := rest }
      else do
        let joined ← join type expected
        go refinement position (joined.getD expected) rest
where
  /-- Change the local and go on along the flow. -/
  go (refinement : Refinement) (position : Nat) (type : ValueType)
      (rest : List (Nat × ValueType)) : Query hierarchy (Spreading ⊕ Refinement) := do
    let changed ← ofExcept (refinement.retype position slot expected type)
    let onward := (flow.successors position).map (·, type)
    return .inl ⟨changed, onward.reverse ++ rest⟩

/-- A bound on the number of positions that a new type visits. -/
def spreadBound (flow : Flow) : Nat :=
  2 * (flow.size + 1) * (flow.size + 1) * (flow.size + 1)

end Query

namespace Refine

variable {hierarchy : Hierarchy}

/-- Use the answer of a query. -/
def ask {α : Type} (query : Query hierarchy α) : Refine hierarchy α :=
  StateT.lift query

/-- Spread a new type for a local from a position along the flow. -/
def retypeFrom (scene : Scene) (position slot : Nat) (expected type : ValueType) :
    Refine hierarchy Unit := do
  let refinement ← get
  if slot < refinement.refined.size then
    set (← ask (Query.iterate (Query.spreadStep scene.flow slot expected)
      1 (Query.spreadBound scene.flow) ⟨refinement, [(position, type)]⟩))

end Refine

end LocalTable
