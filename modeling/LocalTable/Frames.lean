import LocalTable.Flow
import LocalTable.Frame.Effect
import LocalTable.Frame.Merge
import LocalTable.Frame.Seed

/-!
# Frames of a method

Every instruction that control can reach has a frame.  The frame of the first
instruction holds the parameters, and snapshots describe further frames.  From
there frames are carried along the flow and joined where they meet, until no
frame changes any more.  On the way, throws get edges to their handlers.

Joining goes up the chains of supertypes only, so the frames settle soon.  Where
supertypes form a cycle, or the root class has a supertype itself, a join may go
round, and the frames may take long to settle or never do.  The frames of a method
can be in finitely many states only, and frames that do not settle in as many steps
never will: then this is the outcome.
-/

namespace LocalTable

/-- A method under analysis. -/
structure Body where
  owner : BinaryName
  descriptor : MethodDescriptor
  isStatic : Bool
  code : Code
  deriving DecidableEq

namespace Body

/-- The instructions of the method. -/
def instructions (body : Body) : Array Instruction :=
  body.code.instructions

/-- The class of the receiver, if there is one. -/
def receiver (body : Body) : Option BinaryName :=
  if body.isStatic then none else some body.owner

/-- The first real instruction at or after a position. -/
def realFrom? (body : Body) (position : Nat) : Option Instruction :=
  (body.instructions.toList.drop position).find? (!·.isPseudo)

/-- The meaning of a snapshot value inside the method.  An object that is not
set up yet counts as an object of its class. -/
def resolve (body : Body) : Resolver
  | .uninitializedThis => .ok (some (.object body.owner))
  | .uninitialized label =>
      match body.code.position? label with
      | none => .error (.unknownLabel label)
      | some position =>
          match body.realFrom? position with
          | some (.new created) => .ok (some (.object created))
          | _ => .error (.notBeforeNew label)
  | value => value.resolve

/-- The frame at the start of the method. -/
def entryFrame (body : Body) : Except Error Frame :=
  match Frame.entry body.receiver body.descriptor body.code.maxLocals
      body.code.maxStack with
  | .ok frame => .ok frame
  | .error fault => .error (.frame 0 fault)

end Body

/-- The frames of a method by position; positions that control does not reach
have none. -/
abbrev Frames := Array (Option Frame)

namespace Frames

/-- The frame at a position. -/
def at? (frames : Frames) (position : Nat) : Option Frame :=
  frames.getD position none

/-- What a local slot holds at a position. -/
def localAt (frames : Frames) (position slot : Nat) : Option ValueType :=
  (frames.at? position).bind (·.localAt slot)

/-- Put a frame at a position. -/
def put (frames : Frames) (position : Nat) (frame : Frame) : Frames :=
  frames.setIfInBounds position (some frame)

end Frames

namespace Body

/-- The snapshots seen so far: the frame of the last one, the position after the
last snapshot or real instruction, and the frames that they describe. -/
structure Seeding where
  current : Frame
  next : Nat
  frames : Frames

/-- Go through one instruction.  A snapshot describes the state at the next real
instruction; its frame is put behind the last real instruction or snapshot,
since the labels in between mean the same state. -/
def seedAt (body : Body) (seeding : Seeding) (instruction : Instruction)
    (position : Nat) :
    Except Error Seeding :=
  match instruction with
  | .snapshot snapshot =>
      match seeding.current.expand body.resolve snapshot with
      | .ok frame =>
          .ok ⟨frame, position + 1, seeding.frames.put seeding.next frame⟩
      | .error fault => .error (.malformedFrameData position fault)
  | _ =>
      .ok (if instruction.isPseudo then seeding
        else { seeding with next := position + 1 })

/-- The frames at the start of the method and at its snapshots. -/
def seeds (body : Body) : Except Error Frames := do
  let entry ← body.entryFrame
  let start := Frames.put (Array.replicate body.instructions.size none) 0 entry
  let seeding ← body.instructions.toList.zipIdx.foldlM
    (fun seeding (instruction, position) => body.seedAt seeding instruction position)
    (⟨entry, 0, start⟩ : Seeding)
  return seeding.frames

end Body

/-- Frames on their way through a method.  The positions whose frames have to be
carried on are pending, the next one first; each is pending at most once. -/
structure Propagation where
  flow : Flow
  frames : Frames
  pending : List Nat
  queued : IndexSet
  iterations : Nat

namespace Propagation

/-- Start with the frames at the entries of the flow. -/
def start (flow : Flow) (frames : Frames) : Propagation :=
  let entries := flow.entries.toList.filter (· < frames.size)
  ⟨flow, frames, entries, IndexSet.ofList entries, 0⟩

/-- Make a position pending. -/
def push (propagation : Propagation) (position : Nat) : Propagation :=
  if propagation.queued.contains position then
    propagation
  else
    { propagation with
      pending := position :: propagation.pending
      queued := propagation.queued.insert position }

end Propagation

namespace Query

variable {hierarchy : Hierarchy}

/-- Bring a frame to a position of the code.  If that changes the frame there, the
position becomes pending. -/
def deliver (frame : Frame) (propagation : Propagation) (position : Nat) :
    Query hierarchy Propagation :=
  if position < propagation.frames.size then
    match propagation.frames.at? position with
    | some existing => do
        let (merged, changed) ← merge existing frame position
        let stored :=
          { propagation with frames := propagation.frames.put position merged }
        return if changed then stored.push position else stored
    | none =>
        return { propagation with
          frames := propagation.frames.put position frame }.push position
  else
    .fail (.beyondCode position)

/-- The frame that a handler gets from an instruction that throws before it has
any effect. -/
def handlerFrame (before : Frame) (position : Nat) (caught : BinaryName) :
    Query hierarchy Frame :=
  match before.clearStack.push (.object caught) none with
  | .ok frame => .done frame
  | .error fault => .fail (.frame position fault)

/-- Bring a frame to the handlers of all ranges around a position. -/
def deliverToHandlers (before : Frame) (position : Nat) (propagation : Propagation) :
    Query hierarchy Propagation :=
  let around := propagation.flow.ranges.filter fun range =>
    range.first ≤ position && position ≤ range.last
  around.foldlM
    (fun propagation range => do
      let frame ← handlerFrame before position range.caught
      deliver frame propagation range.handler)
    propagation

/-- Positions to which an instruction hands its frame on. -/
def receivers (flow : Flow) (position : Nat) (instruction : Instruction) : List Nat :=
  if !instruction.jumpTargets.isEmpty then flow.targetsOf position
  else if instruction.isReturn || instruction.isThrow then []
  else if position + 1 < flow.size then [position + 1]
  else []

/-- Carry the frame of an instruction on. -/
def carry (propagation : Propagation) (position : Nat) (instruction : Instruction)
    (before : Frame) : Query hierarchy Propagation :=
  if instruction.isPseudo then
    (receivers propagation.flow position instruction).foldlM (deliver before) propagation
  else do
    let after ← execute before position instruction
    let flow ←
      if instruction.isThrow then
        addThrow propagation.flow position ((after.peek? 1).bind (·.type))
      else
        pure propagation.flow
    let propagation ← (receivers flow position instruction).foldlM (deliver after)
      { propagation with flow := flow }
    deliverToHandlers before position propagation

/-- Carry the frame of the next pending position on, or stop if there is none.
A position that nothing reaches has no frame to carry. -/
def propagateStep (instructions : Array Instruction) (propagation : Propagation) :
    Query hierarchy (Propagation ⊕ Propagation) :=
  match propagation.pending with
  | [] => return .inr propagation
  | position :: rest => do
      let popped := { propagation with
        pending := rest
        queued := propagation.queued.erase position
        iterations := propagation.iterations + 1 }
      match instructions[position]?, popped.frames.at? position with
      | some instruction, some before =>
          return .inl (← carry popped position instruction before)
      | _, _ => return .inl popped

end Query

/-- Dimensions of the deepest array that an instruction brings in. -/
def Instruction.arrayDepth : Instruction → Nat
  | .snapshot (.sameOneStack value) => valueDepth value
  | .snapshot (.append locals) => (locals.map valueDepth).foldl max 0
  | .snapshot (.full locals stack) => ((locals ++ stack).map valueDepth).foldl max 0
  | .getStatic field | .getField field => fieldDepth field.type
  | .invoke _ method => (method.descriptor.result.map fieldDepth).getD 0
  | .invokeDynamic site => (site.descriptor.result.map fieldDepth).getD 0
  | .newArray _ => 1
  | .newRefArray element => element.dimensions + 1
  | .newMultiArray array _ => array.dimensions
  | .checkCast type => type.dimensions
  | _ => 0
where
  /-- Dimensions of a field type. -/
  fieldDepth : FieldType → Nat
    | .ref type => type.dimensions
    | .base _ => 0
  /-- Dimensions of a snapshot value. -/
  valueDepth : VerificationType → Nat
    | .object type => type.dimensions
    | _ => 0

namespace Body

/-- Dimensions of the deepest array in the method. -/
def arrayDepth (body : Body) : Nat :=
  let parameters := body.descriptor.parameters.map Instruction.arrayDepth.fieldDepth
  let brought := body.instructions.toList.map Instruction.arrayDepth
  (parameters ++ brought).foldl max 0

/-- Number of places in a frame of the method. -/
def places (body : Body) : Nat :=
  body.code.maxLocals + 2 * body.code.maxStack + 1

/-- Number of types that the places of the method can hold: classes that the
method names or that are supertypes in the hierarchy, arrays of them, and the
types that are no classes. -/
def typeBound (body : Body) (hierarchy : Hierarchy) : Nat :=
  let named := (body.instructions.size + 1) * body.places + body.code.handlers.length
  (body.arrayDepth + 2) * (hierarchy.mentioned.length + named + 4) + 8

/-- Bits that suffice to tell the states apart in which the frames can be before
they settle.  A position has a type and perhaps a source in each of its places,
a rank among the pending positions, and edges to handlers in some order.  A
number takes no more bits than it counts. -/
def stateBits (body : Body) (hierarchy : Hierarchy) : Nat :=
  let contents := body.places * (body.typeBound hierarchy + body.places + 2)
  let edges := body.code.handlers.length * body.code.handlers.length
  (body.instructions.size + 1) * (contents + body.instructions.size + edges + 8)

end Body

namespace Query

variable {hierarchy : Hierarchy}

/-- The frame before every instruction that control can reach, and the flow with
the edges of throws. -/
def computeFrames (body : Body) (flow : Flow) : Query hierarchy (Frames × Flow) :=
  if body.instructions.isEmpty then
    return (#[], flow)
  else do
    let seeds ← ofExcept body.seeds
    let settled ← iterate (propagateStep body.instructions) (body.stateBits hierarchy) 1
      (Propagation.start flow seeds)
    tell (.framesSettled settled.iterations)
    return (settled.frames, settled.flow)

end Query

end LocalTable
