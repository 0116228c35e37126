import LocalTable.Code
import LocalTable.Hierarchy.Subtyping
import LocalTable.IndexSet

/-!
# Control flow

Control runs through a method in blocks: it enters a block at an entry, goes
from each instruction to the next one, and leaves the block at an exit.  Edges
are recorded only where control does not simply go on to the next instruction,
from both of their ends.

The flow of a method is built in stages.  Branches, switches and returns are
known from the code alone.  Which handlers catch what is thrown is known once
there are frames.  At last, instructions inside protected ranges get edges to
their handlers, and every block is made to end where another one begins.
-/

namespace LocalTable

/-- A range of positions, both ends included, whose exceptions go to a handler. -/
structure ProtectedRange where
  first : Nat
  last : Nat
  handler : Nat
  caught : BinaryName
  deriving DecidableEq

/-- Entries, exits and explicit edges of a method, by position. -/
structure Flow where
  entries : IndexSet
  exits : IndexSet
  targets : Array (List Nat)
  sources : Array (List Nat)
  ranges : List ProtectedRange
  deriving DecidableEq

namespace Flow

/-- Number of positions. -/
def size (flow : Flow) : Nat :=
  flow.targets.size

/-- Explicit edges out of a position. -/
def targetsOf (flow : Flow) (position : Nat) : List Nat :=
  flow.targets.getD position []

/-- Explicit edges into a position. -/
def sourcesOf (flow : Flow) (position : Nat) : List Nat :=
  flow.sources.getD position []

/-- Every position that control can reach directly after this one. -/
def successors (flow : Flow) (position : Nat) : List Nat :=
  match flow.targetsOf position with
  | [] =>
      if flow.exits.contains position || flow.size ≤ position + 1 then []
      else [position + 1]
  | targets => targets

/-- Where a walk against the flow goes on: the explicit edges into a position,
or the position before it. -/
def predecessors (flow : Flow) (position : Nat) : List Nat :=
  match flow.sourcesOf position, position with
  | [], 0 => []
  | [], before + 1 => [before]
  | sources, _ => sources

/-- Where a walk along the flow goes on: the explicit edges out of a position,
or the position after it. -/
def onward (flow : Flow) (position : Nat) : List Nat :=
  match flow.targetsOf position with
  | [] => if position + 1 < flow.size then [position + 1] else []
  | targets => targets

/-- A flow without edges, entered at the first position. -/
def empty (size : Nat) (ranges : List ProtectedRange) : Flow :=
  { entries := if size = 0 then ∅ else IndexSet.empty.insert 0
    exits := ∅
    targets := Array.replicate size []
    sources := Array.replicate size []
    ranges := ranges }

/-- Make a position an entry. -/
def markEntry (flow : Flow) (position : Nat) : Flow :=
  { flow with entries := flow.entries.insert position }

/-- Make a position an exit. -/
def markExit (flow : Flow) (position : Nat) : Flow :=
  { flow with exits := flow.exits.insert position }

/-- Add an element to the end of a list that lacks it. -/
def appendNew (positions : List Nat) (position : Nat) : List Nat :=
  if positions.contains position then positions else positions ++ [position]

/-- Record an edge at its target. -/
def addSource (flow : Flow) (source target : Nat) : Flow :=
  if flow.size ≤ target then
    flow
  else
    { flow.markEntry target with
      sources := flow.sources.modify target (appendNew · source) }

/-- Let control go from a position to the targets and nowhere else. -/
def jump (flow : Flow) (source : Nat) (targets : List Nat) : Flow :=
  let recorded := targets.foldl (fun flow target => flow.addSource source target)
    (flow.markExit source)
  { recorded with targets := recorded.targets.setIfInBounds source targets }

/-- Let control go from a position to one more target. -/
def addEdge (flow : Flow) (source target : Nat) : Flow :=
  let exited := flow.markExit source
  { exited with targets := exited.targets.modify source (appendNew · target) }.addSource
    source target

/-- The protected range of an exception handler. -/
def rangeOf (code : Code) (handler : Handler) : Except Error ProtectedRange := do
  let first ← code.positionOf handler.first 0
  let last ← code.positionOf handler.stop 0
  let target ← code.positionOf handler.handler 0
  return ⟨first, last, target, handler.caught.getD .throwable⟩

/-- Where a jump or a switch goes.  A conditional jump also goes on to the next
instruction, which comes first. -/
def destinations (code : Code) (position : Nat) (instruction : Instruction) :
    Except Error (List Nat) := do
  let resolved ← instruction.jumpTargets.mapM (code.positionOf · position)
  if instruction.isConditionalJump then
    return resolved.flatMap fun target =>
      if target = position + 1 then [target] else [position + 1, target]
  else
    return resolved.eraseDups

/-- Record what the code alone says about an instruction. -/
def addInstruction (code : Code) (flow : Flow) (instruction : Instruction)
    (position : Nat) :
    Except Error Flow := do
  if instruction.jumpTargets.isEmpty then
    return if instruction.isReturn then flow.markExit position else flow
  else
    return flow.jump position (← destinations code position instruction)

/-- The flow of branches, switches and returns. -/
def ofCode (code : Code) : Except Error Flow := do
  let ranges ← code.handlers.mapM (rangeOf code)
  let start := ranges.foldl (fun flow range => flow.markEntry range.handler)
    (empty code.instructions.size ranges)
  code.instructions.toList.zipIdx.foldlM
    (fun flow (instruction, position) => addInstruction code flow instruction
      position) start

/-- Go through one position of a protected range.  What matters to a handler are
the locals, and these change only at stores.  So a position gets an edge to the
handler if it already has edges, if it leaves the method, or if it is the first
one or follows a store. -/
def protectPosition (range : ProtectedRange) (flow : Flow) (position : Nat)
    (changed : Bool) :
    Flow :=
  if !(flow.targetsOf position).isEmpty then
    flow.addEdge position range.handler
  else if flow.exits.contains position then
    flow.jump position [range.handler]
  else if changed then
    if position < range.last then flow.jump position [position + 1, range.handler]
    else flow.jump position [range.handler]
  else
    flow

/-- Go through the instructions of a protected range, with the fact whether the
locals may have changed since the last one. -/
def protectRange (instructions : Array Instruction) (flow : Flow)
    (range : ProtectedRange) :
    Flow :=
  let last := min range.last (instructions.size - 1)
  let positions := List.range' range.first (last + 1 - range.first)
  (positions.foldl visit (flow, true)).1
where
  /-- Pseudo-instructions have no part in this. -/
  visit : Flow × Bool → Nat → Flow × Bool
    | (flow, changed), position =>
        match instructions[position]? with
        | none => (flow, changed)
        | some instruction =>
            if instruction.isPseudo then
              (flow, changed)
            else
              (protectPosition range flow position changed, instruction.stored?.isSome)

/-- Add the edges from protected ranges to their handlers. -/
def protect (flow : Flow) (instructions : Array Instruction) : Flow :=
  flow.ranges.foldl (protectRange instructions) flow

/-- End a block before every entry. -/
def closeBlocks (flow : Flow) : Flow :=
  (List.range (flow.size - 1)).foldl close flow
where
  /-- Make going on into an entry an explicit edge. -/
  close (flow : Flow) (position : Nat) : Flow :=
    if !flow.exits.contains position && flow.entries.contains (position + 1) &&
        (flow.targetsOf position).isEmpty then
      flow.jump position [position + 1]
    else
      flow

end Flow

namespace Query

variable {hierarchy : Hierarchy}

/-- Handlers of the ranges around a position that catch an exception. -/
def catching (exception : BinaryName) (position : Nat) :
    List ProtectedRange → Query hierarchy (List Nat)
  | [] => return []
  | range :: rest => do
      if range.first ≤ position && position < range.last then
        if ← isSubclass exception range.caught then
          return range.handler :: (← catching exception position rest)
        else
          catching exception position rest
      else
        catching exception position rest

/-- Add the edges from a throw to the handlers that catch it.  Without such a
handler the throw leaves the method. -/
def addThrow (flow : Flow) (position : Nat) (thrown : Option ValueType) :
    Query hierarchy Flow := do
  let exception :=
    match thrown with
    | some (.reference (.object name)) => name
    | _ => .throwable
  match ← catching exception position flow.ranges with
  | [] => return flow.markExit position
  | handlers =>
      return handlers.foldl (fun flow handler => flow.addEdge position handler) flow

end Query

end LocalTable
