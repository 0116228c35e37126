import LocalTable.Frame
import LocalTable.Query

/-!
# Effects of instructions

Executing an instruction takes its operands from the stack, pushes its result,
and changes the local that it writes.  The types of operands are not checked:
where a value has no type, the instruction tells which one to assume.
-/

namespace LocalTable

/-- The type of a value of a kind when nothing else is known. -/
def Kind.assumed : Kind → ValueType
  | .int => .int
  | .long => .long
  | .float => .float
  | .double => .double
  | .ref => .anyObject

/-- The type of a number of a kind. -/
def Numeric.type : Numeric → ValueType
  | .int => .int
  | .long => .long
  | .float => .float
  | .double => .double

/-- The type of an array element when nothing else is known. -/
def ElementKind.assumed : ElementKind → ValueType
  | .int => .int
  | .long => .long
  | .float => .float
  | .double => .double
  | .ref => .null
  | .byte => .byte
  | .char => .char
  | .short => .short

/-- The type that an `int` is cut down to. -/
def NarrowInt.type : NarrowInt → ValueType
  | .byte => .byte
  | .char => .char
  | .short => .short

/-- The type of a constant. -/
def Constant.type : Constant → ValueType
  | .integer _ => .int
  | .float _ => .float
  | .long _ => .long
  | .double _ => .double
  | .string _ => .object .string
  | .classObject _ => .object .classObject
  | .methodType _ => .object .methodType
  | .methodHandle => .object .methodHandle

namespace Frame

/-- Pop a value of the given width. -/
def popWidth (frame : Frame) (width : Nat) : Except FrameFault (Cell × Frame) :=
  if width = 2 then frame.popWide else frame.pop

/-- Pop a number of cells and ignore them. -/
def drop (frame : Frame) : Nat → Except FrameFault Frame
  | 0 => .ok frame
  | count + 1 => do
      let (_, frame) ← frame.pop
      frame.drop count

/-- Pop values of the given widths, the first one first, and ignore them. -/
def dropWidths (frame : Frame) : List Nat → Except FrameFault Frame
  | [] => .ok frame
  | width :: rest => do
      let (_, frame) ← frame.popWidth width
      frame.dropWidths rest

/-- Pop cells and push them again in another order.  The order counts the popped
cells from the lowest one, and may repeat them.  Moved cells forget where their
values come from. -/
def shuffle (frame : Frame) (count : Nat) (order : List Nat) : Except FrameFault Frame :=
  if frame.stack.length < count then
    .error .emptyStack
  else
    let cells := (frame.stack.take count).reverse.map fun cell => Cell.anonymous cell.type
    let lowered := { frame with stack := frame.stack.drop count }
    (order.filterMap fun index => cells[index]?).foldlM pushCell lowered

/-- Pop the arguments of a call and push its result. -/
def call (frame : Frame) (descriptor : MethodDescriptor) (hasReceiver : Bool) :
    Except FrameFault Frame := do
  let frame ← frame.dropWidths (descriptor.parameters.reverse.map FieldType.width)
  let frame ← if hasReceiver then frame.drop 1 else pure frame
  match descriptor.result with
  | some type => frame.push (.ofField type) none
  | none => return frame

/-- The frame after an instruction. -/
def apply (frame : Frame) : Instruction → Except FrameFault Frame
  | .label _ | .lineNumber _ | .snapshot _ | .nop => .ok frame
  | .pushNull => frame.push .null none
  | .intConstant _ | .pushByte _ | .pushShort _ => frame.push .int none
  | .longConstant _ => frame.push .long none
  | .floatConstant _ => frame.push .float none
  | .doubleConstant _ => frame.push .double none
  | .loadConstant constant => frame.push constant.type none
  | .load kind slot => frame.push ((frame.localAt slot).getD kind.assumed) (some slot)
  | .store kind slot => do
      let (cell, frame) ← frame.popWidth kind.width
      frame.setLocal slot (cell.type.getD kind.assumed)
  | .arrayLoad element => do
      let frame ← frame.drop 1
      let (array, frame) ← frame.pop
      frame.push ((array.type.bind ValueType.component?).getD element.assumed) none
  | .arrayStore element => frame.dropWidths [element.width, 1, 1]
  | .pop => frame.drop 1
  | .pop2 => frame.drop 2
  | .dup =>
      match frame.peek? 1 with
      | some cell => frame.pushCell (.anonymous cell.type)
      | none => .error .emptyStack
  | .dupX1 => frame.shuffle 2 [1, 0, 1]
  | .dupX2 => frame.shuffle 3 [2, 0, 1, 2]
  | .dup2 => frame.shuffle 2 [0, 1, 0, 1]
  | .dup2X1 => frame.shuffle 3 [1, 2, 0, 1, 2]
  | .dup2X2 => frame.shuffle 4 [2, 3, 0, 1, 2, 3]
  | .swap => frame.shuffle 2 [1, 0]
  | .arithmetic _ .int | .logicInt _ => do
      let (right, frame) ← frame.pop
      let (left, frame) ← frame.pop
      frame.push (.intJoin (left.type.getD .int) (right.type.getD .int)) none
  | .arithmetic _ kind => do
      let frame ← frame.dropWidths [kind.width, kind.width]
      frame.push kind.type none
  | .logicLong _ => do
      let frame ← frame.dropWidths [2, 2]
      frame.push .long none
  | .negate .int => do
      let (cell, frame) ← frame.pop
      frame.push (cell.type.getD .int) none
  | .negate kind => do
      let frame ← frame.dropWidths [kind.width]
      frame.push kind.type none
  | .shiftInt _ => do
      let frame ← frame.drop 1
      let (cell, frame) ← frame.pop
      frame.push (cell.type.getD .int) none
  | .shiftLong _ => do
      let frame ← frame.dropWidths [1, 2]
      frame.push .long none
  | .increment slot _ =>
      if (frame.localAt slot).isNone then frame.setLocal slot .int else .ok frame
  | .convert source target => do
      let frame ← frame.dropWidths [source.width]
      frame.push target.type none
  | .narrow target => do
      let frame ← frame.drop 1
      frame.push target.type none
  | .compareLong | .compareDouble _ => do
      let frame ← frame.dropWidths [2, 2]
      frame.push .int none
  | .compareFloat _ => do
      let frame ← frame.drop 2
      frame.push .int none
  | .branchZero _ _ | .branchNull _ _ | .tableSwitch _ _ _ | .lookupSwitch _ _ =>
    frame.drop 1
  | .branchInt _ _ | .branchRef _ _ => frame.drop 2
  | .goto _ | .jsr _ | .ret _ => .ok frame
  | .returnValue kind => do
      let frame ← frame.dropWidths [kind.width]
      return frame.clearStack
  | .returnVoid => .ok frame.clearStack
  | .getStatic field => frame.push (.ofField field.type) none
  | .getField field => do
      let frame ← frame.drop 1
      frame.push (.ofField field.type) none
  | .putStatic field => frame.dropWidths [field.type.width]
  | .putField field => frame.dropWidths [field.type.width, 1]
  | .invoke kind method => frame.call method.descriptor (kind != .static)
  | .invokeDynamic site => frame.call site.descriptor false
  | .new owner => frame.push (.object owner) none
  | .newArray element => do
      let frame ← frame.drop 1
      frame.push (.reference (.array (.base element))) none
  | .newRefArray element => do
      let frame ← frame.drop 1
      frame.push (.reference (.array (.ref element))) none
  | .newMultiArray array dimensions => do
      let frame ← frame.drop dimensions
      frame.push (.reference array) none
  | .arrayLength => do
      let frame ← frame.drop 1
      frame.push .int none
  | .throwRef => do
      let (thrown, frame) ← frame.pop
      frame.clearStack.push (thrown.type.getD (.object .throwable)) none
  | .checkCast type => do
      let frame ← frame.drop 1
      frame.push (.reference type) none
  | .instanceOf _ => do
      let frame ← frame.drop 1
      frame.push .boolean none
  | .monitorEnter | .monitorExit => frame.drop 1

/-- The frame after the instruction at a position, or the reason why there is
none. -/
def execute (frame : Frame) (position : Nat) (instruction : Instruction) :
    Except Error Frame :=
  match instruction.unsupported? with
  | some opcode => .error (.unsupportedOpcode position opcode)
  | none =>
      match frame.apply instruction with
      | .ok after => .ok { after with seeded := false }
      | .error fault => .error (.frame position fault)

/-- What is odd about executing an instruction: it uses a local without a value. -/
def oddity? (frame : Frame) : Instruction → Option Event
  | .load kind slot =>
      if (frame.localAt slot).isNone then some (.emptyLoad slot kind.assumed) else none
  | .increment slot _ =>
      if (frame.localAt slot).isNone then some (.emptyIncrement slot) else none
  | _ => none

end Frame

namespace Query

variable {hierarchy : Hierarchy}

/-- Execute an instruction, and note what is odd about it. -/
def execute (frame : Frame) (position : Nat) (instruction : Instruction) :
    Query hierarchy Frame := do
  match frame.oddity? instruction with
  | some event => tell event
  | none => pure ()
  ofExcept (frame.execute position instruction)

end Query

end LocalTable
