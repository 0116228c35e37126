import LocalTable.Refine

/-!
# Where values come from

A value on the stack that was loaded from a local comes from the stores of this
local.  Walks against the flow find the loads that may have put the value there,
and from each of these loads the stores that may have put the value into the
local.
-/

namespace LocalTable.Query

variable {hierarchy : Hierarchy}

/-- Visit a position on the way to the stores of a slot.  A store counts if the
stored type fits both the local and the use; otherwise the walk ends there. -/
def visitForStore (scene : Scene) (frames : Frames) (slot : Nat)
    (type expected : ValueType) (position : Nat) (stores : List Nat) :
    Query hierarchy (List Nat × List Nat) := do
  if scene.instructions[position]?.bind Instruction.stored? = some slot then
    match frames.localAt (position + 1) slot with
    | none => return (stores, [])
    | some stored =>
        if ← isCompatible stored type then
          if ← isCompatible stored expected then
            return (stores ++ [position], scene.flow.predecessors position)
          else
            return (stores, [])
        else
          return (stores, [])
  else
    return (stores, scene.flow.predecessors position)

/-- Stores of a slot that reach a position, as long as they are compatible. -/
def reachingStores (scene : Scene) (frames : Frames) (start slot : Nat)
    (type expected : ValueType) : Query hierarchy (List Nat) :=
  Walk.run scene.instructions.size
    (visitForStore scene frames slot type expected) [start] ∅ []

/-- Stores that reach a position where the slot is loaded. -/
def storesOfLoad (scene : Scene) (frames : Frames) (position : Nat) (frame : Frame)
    (instruction : Instruction) (expected : ValueType) : Query hierarchy (List Nat) := do
  match instruction with
  | .load _ slot =>
      match frame.localAt slot with
      | none => return []
      | some type =>
          if ← isCompatible type expected then
            reachingStores scene frames position slot type expected
          else
            return []
  | _ => return []

/-- Visit a position on the way to the loads that put a value at a height of the
stack.  The walk ends at the instruction that pushed the value. -/
def visitForLoad (scene : Scene) (frames : Frames) (height : Nat) (expected : ValueType)
    (position : Nat) (stores : List Nat) : Query hierarchy (List Nat × List Nat) := do
  match frames.at? position, scene.instructions[position]? with
  | some frame, some instruction =>
      if frame.depth + expected.width = height then
        let reaching ← storesOfLoad scene frames position frame instruction expected
        let stores := reaching.foldl Flow.appendNew stores
        if instruction.isPseudo then
          return (stores, scene.flow.predecessors position)
        else
          return (stores, [])
      else if frame.depth < height then
        return (stores, [])
      else
        return (stores, scene.flow.predecessors position)
  | _, _ => return (stores, [])

/-- Stores whose values, loaded again, lie at a height of the stack at a
position. -/
def loadedStores (scene : Scene) (frames : Frames) (position height : Nat)
    (expected : ValueType) : Query hierarchy (List Nat) :=
  Walk.run scene.instructions.size (visitForLoad scene frames height expected)
    (scene.flow.predecessors position).reverse ∅ []

/-- The join of the types that stores leave in their locals, or nothing if there
is none.  Null counts only where nothing else is stored. -/
def commonStored (scene : Scene) (frames : Frames) (stores : List Nat) :
    Query hierarchy (Option ValueType) :=
  let types := stores.filterMap fun store =>
    ((scene.storedAt? frames store).map Prod.snd).filter (· != .null)
  match types with
  | [] => return some .null
  | first :: rest => joinAll first rest
where
  /-- Join a type with more types. -/
  joinAll (common : ValueType) : List ValueType → Query hierarchy (Option ValueType)
    | [] => return some common
    | type :: rest => do
        match ← join common type with
        | some joined => joinAll joined rest
        | none => return none

end LocalTable.Query
