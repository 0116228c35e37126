import LocalTable.Descriptor.Parser
import LocalTable.Snapshot

/-!
# Failures

Every way in which the analysis of a method can fail, and its wording.

Some failures are breakdowns: a number does not fit its width, a position is not in
the code, or a loop does not end.  Nobody expects them, so nobody goes on after them.
-/

namespace LocalTable

/-- Why an operation on a frame is impossible. -/
inductive FrameFault where
  | emptyStack
  /-- A wide value was expected where a value of this width lies. -/
  | invalidWidth (width : Nat)
  /-- The stack has room for this many cells only. -/
  | stackOverflow (capacity : Nat)
  | invalidIndex (slot : Nat)
  | missingLabel
  /-- A wide value comes from the last slot, and there is none for its upper half. -/
  | noUpperSlot
  deriving DecidableEq, Repr

/-- The wording of a fault of a frame. -/
def FrameFault.message : FrameFault → String
  | .emptyStack => "EmptyStack"
  | .invalidWidth width => s!"InvalidWidth({width})"
  | .stackOverflow capacity => s!"StackOverflow({capacity})"
  | .invalidIndex slot => s!"InvalidIndex({slot})"
  | .missingLabel => "MissingLabel"
  | .noUpperSlot => "NoUpperSlot"

/-- Why a snapshot makes no sense where it stands. -/
inductive SnapshotFault where
  | cannotChop (count : Nat)
  | localsDoNotFit (count slots : Nat)
  | stackTooHigh (capacity : Nat)
  | unknownLabel (label : Label)
  | notBeforeNew (label : Label)
  /-- The value has a meaning only inside a method. -/
  | unsupportedValue
  deriving DecidableEq

/-- The wording of a fault of a snapshot. -/
def SnapshotFault.message : SnapshotFault → String
  | .cannotChop count => s!"cannot chop {count} locals"
  | .localsDoNotFit count slots => s!"{count} locals do not fit in {slots} slots"
  | .stackTooHigh capacity => s!"stack exceeds {capacity} cells"
  | .unknownLabel label => s!"unknown label {label}"
  | .notBeforeNew label => s!"label {label} does not precede a `new`"
  | .unsupportedValue => "unsupported value"

/-- Why the analysis of a method fails. -/
inductive Error where
  /-- No tier of the hierarchy defines the class. -/
  | unresolvedClass (name : BinaryName)
  /-- Frames of different stack depths meet. -/
  | inconsistentStackDepth (instruction expected found : Nat)
  /-- The instruction is valid, but beyond the analysis. -/
  | unsupportedOpcode (instruction : Nat) (opcode : String)
  | malformedFrameData (instruction : Nat) (fault : SnapshotFault)
  | frame (instruction : Nat) (fault : FrameFault)
  | malformedDescriptor (fault : DescriptorFault)
  | malformedName (fault : NameFault)
  /-- A jump goes on behind the last instruction. -/
  | beyondCode (position : Nat)
  /-- New labels would get numbers that are too large. -/
  | outOfLabels
  /-- A loop over the method did not settle within its bound, which happens only
  when supertypes form a cycle or the root class has one. -/
  | unsettled
  /-- The analysis of a particular method failed. -/
  | method (owner : BinaryName) (name : UnqualifiedName) (descriptor : String)
      (cause : Error)
  deriving DecidableEq

/-- The wording of a failure. -/
def Error.message : Error → String
  | .unresolvedClass name => s!"cannot resolve class {name}"
  | .inconsistentStackDepth instruction expected found =>
      s!"inconsistent stack depth at instruction {instruction} ({expected} vs {found})"
  | .unsupportedOpcode instruction opcode =>
      s!"unsupported opcode {opcode} at instruction {instruction}"
  | .malformedFrameData instruction fault =>
      s!"malformed frame data at instruction {instruction}: {fault.message}"
  | .frame instruction fault =>
      s!"invalid frame at instruction {instruction}: {fault.message}"
  | .malformedDescriptor fault => s!"malformed descriptor: {fault.message}"
  | .malformedName fault => s!"malformed name: {fault.message}"
  | .beyondCode position => s!"no instruction {position} to go on to"
  | .outOfLabels => "no label is left"
  | .unsettled => "the analysis does not settle"
  | .method owner name descriptor cause =>
      s!"{owner}.{name}{descriptor}: {cause.message}"

/-- Is the failure a breakdown, after which nothing goes on? -/
def Error.isBreakdown : Error → Bool
  | .frame _ .noUpperSlot | .beyondCode _ | .outOfLabels | .unsettled => true
  | _ => false

end LocalTable
