import LocalTable.Snapshot

/-!
# Instructions

The code of a method is a list of instructions.  Labels, line numbers and stack
map snapshots stand in the same list as pseudo-instructions: they have a
position, but no effect.  Instructions that differ only in the kind of value
that they work on are one constructor with the kind as a parameter, and the wide
and short encodings of an instruction are not told apart.

Beside the instructions themselves, this module says of each one which locals it
reads and writes, where it may jump, and how deep it reaches into the stack.
-/

namespace LocalTable

/-- Kinds of values that loads, stores and returns move. -/
inductive Kind where
  | int
  | long
  | float
  | double
  | ref
  deriving DecidableEq, Repr

/-- Slots that a value of a kind takes. -/
def Kind.width : Kind → Nat
  | .long | .double => 2
  | _ => 1

/-- Kinds of values that arithmetic works on. -/
inductive Numeric where
  | int
  | long
  | float
  | double
  deriving DecidableEq, Repr

/-- Slots that a number of a kind takes. -/
def Numeric.width : Numeric → Nat
  | .long | .double => 2
  | _ => 1

/-- Kinds of array elements; `byte` covers arrays of `boolean` as well. -/
inductive ElementKind where
  | int
  | long
  | float
  | double
  | ref
  | byte
  | char
  | short
  deriving DecidableEq, Repr

/-- Slots that an element of an array takes outside of it. -/
def ElementKind.width : ElementKind → Nat
  | .long | .double => 2
  | _ => 1

/-- Types that an `int` is cut down to. -/
inductive NarrowInt where
  | byte
  | char
  | short
  deriving DecidableEq, Repr

/-- Arithmetic on two operands. -/
inductive Arithmetic where
  | add
  | sub
  | mul
  | div
  | rem
  deriving DecidableEq, Repr

/-- Bitwise logic on two operands. -/
inductive Logic where
  | and
  | or
  | xor
  deriving DecidableEq, Repr

/-- Bit shifts. -/
inductive Shift where
  | left
  | logicalRight
  | arithmeticRight
  deriving DecidableEq, Repr

/-- The result of comparing with a value that is not a number. -/
inductive NanResult where
  | less
  | greater
  deriving DecidableEq, Repr

/-- Comparisons of numbers. -/
inductive Comparison where
  | eq
  | ge
  | gt
  | le
  | lt
  | ne
  deriving DecidableEq, Repr

/-- Does the comparison depend on the order of its operands? -/
def Comparison.isOrdering : Comparison → Bool
  | .lt | .ge | .gt | .le => true
  | .eq | .ne => false

/-- Comparisons of references. -/
inductive Equality where
  | eq
  | ne
  deriving DecidableEq, Repr

/-- Ways to call a method of a class or an interface. -/
inductive InvokeKind where
  | virtual
  | special
  | static
  | interface
  deriving DecidableEq, Repr

/-- Constants from the constant pool.  Floating-point numbers are given by their
bits. -/
inductive Constant where
  | integer (value : Int)
  | float (bits : UInt32)
  | long (value : Int)
  | double (bits : UInt64)
  | string (text : String)
  | classObject (type : RefType)
  | methodType (descriptor : MethodDescriptor)
  | methodHandle
  deriving DecidableEq

/-- A field that an instruction refers to. -/
structure FieldRef where
  owner : BinaryName
  name : UnqualifiedName
  type : FieldType
  deriving DecidableEq

/-- A method that an instruction refers to.  Its owner may be an array, since
arrays have methods too. -/
structure MethodRef where
  owner : RefType
  name : UnqualifiedName
  descriptor : MethodDescriptor
  deriving DecidableEq

/-- A call site that is linked at run time. -/
structure CallSite where
  name : UnqualifiedName
  descriptor : MethodDescriptor
  deriving DecidableEq

/-- An instruction or a pseudo-instruction. -/
inductive Instruction where
  | label (label : Label)
  | lineNumber (line : Nat)
  | snapshot (snapshot : Snapshot)
  | nop
  | pushNull
  /-- One of the short constants from minus one to five. -/
  | intConstant (value : Int)
  | longConstant (value : Int)
  | floatConstant (value : Nat)
  | doubleConstant (value : Nat)
  | pushByte (value : Int)
  | pushShort (value : Int)
  | loadConstant (constant : Constant)
  | load (kind : Kind) (slot : Nat)
  | store (kind : Kind) (slot : Nat)
  | arrayLoad (element : ElementKind)
  | arrayStore (element : ElementKind)
  | pop
  | pop2
  | dup
  | dupX1
  | dupX2
  | dup2
  | dup2X1
  | dup2X2
  | swap
  | arithmetic (operation : Arithmetic) (kind : Numeric)
  | negate (kind : Numeric)
  | shiftInt (direction : Shift)
  | shiftLong (direction : Shift)
  | logicInt (operation : Logic)
  | logicLong (operation : Logic)
  | increment (slot : Nat) (amount : Int)
  /-- Conversion between two different kinds of numbers. -/
  | convert (source target : Numeric)
  | narrow (target : NarrowInt)
  | compareLong
  | compareFloat (onNan : NanResult)
  | compareDouble (onNan : NanResult)
  /-- Jump if an `int` compares with zero. -/
  | branchZero (comparison : Comparison) (target : Label)
  /-- Jump if two values of type `int` compare. -/
  | branchInt (comparison : Comparison) (target : Label)
  /-- Jump if two references compare. -/
  | branchRef (comparison : Equality) (target : Label)
  /-- Jump if a reference compares with null. -/
  | branchNull (comparison : Equality) (target : Label)
  | goto (target : Label)
  | jsr (target : Label)
  | ret (slot : Nat)
  | tableSwitch (otherwise : Label) (low : Int) (targets : List Label)
  | lookupSwitch (otherwise : Label) (targets : List (Int × Label))
  | returnValue (kind : Kind)
  | returnVoid
  | getStatic (field : FieldRef)
  | putStatic (field : FieldRef)
  | getField (field : FieldRef)
  | putField (field : FieldRef)
  | invoke (kind : InvokeKind) (method : MethodRef)
  | invokeDynamic (site : CallSite)
  | new (owner : BinaryName)
  | newArray (element : BaseType)
  | newRefArray (element : RefType)
  | newMultiArray (array : RefType) (dimensions : Nat)
  | arrayLength
  | throwRef
  | checkCast (type : RefType)
  | instanceOf (type : RefType)
  | monitorEnter
  | monitorExit
  deriving DecidableEq

namespace Instruction

/-- Pseudo-instructions have a position but no effect. -/
def isPseudo : Instruction → Bool
  | .label _ | .lineNumber _ | .snapshot _ => true
  | _ => false

/-- The label that a pseudo-instruction places. -/
def label? : Instruction → Option Label
  | .label marker => some marker
  | _ => none

/-- Labels that the instruction may jump to; a switch lists the label for all
other values first. -/
def jumpTargets : Instruction → List Label
  | .branchZero _ target | .branchInt _ target | .branchRef _
    target | .branchNull _ target
  | .goto target | .jsr target => [target]
  | .tableSwitch otherwise _ targets => otherwise :: targets
  | .lookupSwitch otherwise targets => otherwise :: targets.map Prod.snd
  | _ => []

/-- Does control always go to the single jump target? -/
def isUnconditionalJump : Instruction → Bool
  | .goto _ | .jsr _ => true
  | _ => false

/-- Is this a switch? -/
def isSwitch : Instruction → Bool
  | .tableSwitch _ _ _ | .lookupSwitch _ _ => true
  | _ => false

/-- Does the instruction leave the method normally? -/
def isReturn : Instruction → Bool
  | .returnValue _ | .returnVoid => true
  | _ => false

/-- Does the instruction throw an exception? -/
def isThrow : Instruction → Bool
  | .throwRef => true
  | _ => false

/-- Does control either jump or go on? -/
def isConditionalJump : Instruction → Bool
  | .branchZero _ _ | .branchInt _ _ | .branchRef _ _ | .branchNull _ _ => true
  | _ => false

/-- The slot that a load reads. -/
def loaded? : Instruction → Option Nat
  | .load _ slot => some slot
  | _ => none

/-- The slot that a store writes. -/
def stored? : Instruction → Option Nat
  | .store _ slot => some slot
  | _ => none

/-- The mnemonic of an instruction that the analysis refuses. -/
def unsupported? : Instruction → Option String
  | .jsr _ => some "jsr"
  | .ret _ => some "ret"
  | _ => none

/-- Number of stack cells that the instruction consumes. -/
def stackDemand : Instruction → Nat
  | .label _ | .lineNumber _ | .snapshot _ | .nop => 0
  | .pushNull | .intConstant _ | .longConstant _ | .floatConstant _ | .doubleConstant _
  | .pushByte _ | .pushShort _ | .loadConstant _ | .load _ _ => 0
  | .store kind _ => kind.width
  | .arrayLoad _ => 2
  | .arrayStore element => 2 + element.width
  | .pop | .dup => 1
  | .pop2 | .dupX1 | .dup2 | .swap => 2
  | .dupX2 | .dup2X1 => 3
  | .dup2X2 => 4
  | .arithmetic _ kind => 2 * kind.width
  | .negate kind => kind.width
  | .shiftInt _ | .logicInt _ => 2
  | .shiftLong _ => 3
  | .logicLong _ => 4
  | .increment _ _ => 0
  | .convert source _ => source.width
  | .narrow _ => 1
  | .compareLong | .compareDouble _ => 4
  | .compareFloat _ => 2
  | .branchZero _ _ | .branchNull _ _ | .tableSwitch _ _ _ | .lookupSwitch _ _ => 1
  | .branchInt _ _ | .branchRef _ _ => 2
  | .goto _ | .jsr _ | .ret _ => 0
  | .returnValue kind => kind.width
  | .returnVoid => 0
  | .getStatic _ => 0
  | .putStatic field => field.type.width
  | .getField _ => 1
  | .putField field => 1 + field.type.width
  | .invoke kind method => method.descriptor.parameterLength (kind != .static)
  | .invokeDynamic site => site.descriptor.parameterLength false
  | .new _ => 0
  | .newArray _ | .newRefArray _ => 1
  | .newMultiArray _ dimensions => dimensions
  | .arrayLength | .throwRef | .checkCast _ | .instanceOf
    _ | .monitorEnter | .monitorExit => 1

end Instruction

end LocalTable
