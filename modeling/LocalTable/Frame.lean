import LocalTable.Class
import LocalTable.ValueType

/-!
# Frames

A frame is what is known about the locals and the operand stack before an
instruction.  Every local slot either holds a value of some type or is empty.
The slot after a `long` or a `double` holds `top`, and on the stack such a value
takes two cells as well, with `top` in the upper one.

A cell of the stack also remembers from which local its value was loaded.
-/

namespace LocalTable

/-- A cell of the operand stack.  The type is missing if paths of control disagree
on it. -/
structure Cell where
  type : Option ValueType
  source : Option Nat
  deriving DecidableEq

/-- A cell whose value comes from no local. -/
def Cell.anonymous (type : Option ValueType) : Cell :=
  ⟨type, none⟩

/-- The state before an instruction.  The top of the stack comes first. -/
structure Frame where
  locals : Array (Option ValueType)
  stack : List Cell
  maxStack : Nat
  /-- Number of slots that the last snapshot described; the next one may be given
  as a change to these. -/
  described : Nat
  /-- Does the frame come from a snapshot, without any computed frame joined to it? -/
  seeded : Bool
  deriving DecidableEq

namespace Frame

/-- A frame of empty locals and an empty stack. -/
def empty (maxLocals maxStack : Nat) : Frame :=
  { locals := Array.replicate maxLocals none
    stack := []
    maxStack := maxStack
    described := 0
    seeded := false }

/-- What a local slot holds. -/
def localAt (frame : Frame) (slot : Nat) : Option ValueType :=
  frame.locals.getD slot none

/-- Slots that hold anything, upper halves of wide values included. -/
def occupied (frame : Frame) : List Nat :=
  (List.range frame.locals.size).filter fun slot => (frame.localAt slot).isSome

/-- Number of cells on the stack. -/
def depth (frame : Frame) : Nat :=
  frame.stack.length

/-- The cell at a distance from the top, which is at distance one. -/
def peek? (frame : Frame) (distance : Nat) : Option Cell :=
  match distance with
  | 0 => none
  | above + 1 => frame.stack[above]?

/-- Change the type of the cell at a distance from the top, if there is one. -/
def retypeCell (frame : Frame) (distance : Nat) (type : Option ValueType) : Frame :=
  match distance with
  | 0 => frame
  | above + 1 =>
      { frame with stack := frame.stack.modify above fun cell =>
        { cell with type := type } }

/-- Empty the stack. -/
def clearStack (frame : Frame) : Frame :=
  { frame with stack := [] }

/-- Does the slot hold the upper half of a wide value in the slot below? -/
def splitsWide (frame : Frame) (slot : Nat) : Bool :=
  match slot with
  | 0 => false
  | below + 1 =>
      frame.localAt slot = some .top &&
        (frame.localAt below).any fun type => type.width == 2

/-- Store a value in a local.  A wide value takes the next slot as well, and a
wide value that loses its upper half is gone. -/
def setLocal (frame : Frame) (slot : Nat) (type : ValueType) : Except FrameFault Frame :=
  if frame.locals.size < slot + type.width then
    .error (.invalidIndex slot)
  else
    let cleared :=
      if frame.splitsWide slot then frame.locals.setIfInBounds (slot - 1) none
      else frame.locals
    let stored := cleared.setIfInBounds slot (some type)
    let completed :=
      if type.width = 2 then stored.setIfInBounds (slot + 1) (some .top) else stored
    .ok { frame with locals := completed }

/-- Empty a local, with both slots of a wide value. -/
def removeLocal (frame : Frame) (slot : Nat) : Frame :=
  match frame.localAt slot with
  | none => frame
  | some type =>
      let removed := frame.locals.setIfInBounds slot none
      { frame with
        locals := if type.width = 2 then removed.setIfInBounds (slot + 1) none
          else removed }

/-- Push a cell. -/
def pushCell (frame : Frame) (cell : Cell) : Except FrameFault Frame :=
  if frame.stack.length < frame.maxStack then
    .ok { frame with stack := cell :: frame.stack }
  else
    .error (.stackOverflow frame.maxStack)

/-- The largest slot number. -/
def lastSlot : Nat := 65535

/-- Push a value, with a second cell for a wide one. -/
def push (frame : Frame) (type : ValueType) (source : Option Nat) :
    Except FrameFault Frame :=
  if frame.maxStack < frame.stack.length + type.width then
    .error (.stackOverflow frame.maxStack)
  else if type.width = 2 then
    if source = some lastSlot then
      .error .noUpperSlot
    else
      .ok { frame with
        stack := ⟨some .top, source.map (· + 1)⟩ :: ⟨some type, source⟩ :: frame.stack }
  else
    .ok { frame with stack := ⟨some type, source⟩ :: frame.stack }

/-- Pop a cell. -/
def pop (frame : Frame) : Except FrameFault (Cell × Frame) :=
  match frame.stack with
  | [] => .error .emptyStack
  | cell :: rest => .ok (cell, { frame with stack := rest })

/-- Pop the two cells of a wide value and return the lower one. -/
def popWide (frame : Frame) : Except FrameFault (Cell × Frame) := do
  let (upper, frame) ← frame.pop
  if upper.type = some .top then frame.pop else .error (.invalidWidth 1)

/-- Store parameters from a slot onwards, and return the slot behind them. -/
def storeParameters (frame : Frame) (slot : Nat) :
    List FieldType → Except FrameFault (Nat × Frame)
  | [] => .ok (slot, frame)
  | parameter :: rest =>
      if lastSlot < slot then
        .error (.invalidIndex lastSlot)
      else do
        let type := ValueType.ofField parameter
        let frame ← frame.setLocal slot type
        frame.storeParameters (slot + type.width) rest

/-- The frame at the start of a method: the receiver, if there is one, then the
parameters. -/
def entry (receiver : Option BinaryName) (descriptor : MethodDescriptor)
    (maxLocals maxStack : Nat) : Except FrameFault Frame := do
  let frame := empty maxLocals maxStack
  let (slot, frame) ←
    match receiver with
    | some owner => do
        let frame ← frame.setLocal 0 (.object owner)
        pure (1, frame)
    | none => pure (0, frame)
  let (slot, frame) ← frame.storeParameters slot descriptor.parameters
  return { frame with described := slot }

end Frame

end LocalTable
