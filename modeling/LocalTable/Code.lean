import LocalTable.Error
import LocalTable.Instruction

/-!
# Code of methods

The body of a method: its instructions, its exception handlers, and its table
of local variables.  Handlers and table entries refer to positions through
labels, so that instructions can be inserted without touching them.
-/

namespace LocalTable

/-- An exception handler for a range of instructions.  Without a caught class it
catches everything. -/
structure Handler where
  first : Label
  stop : Label
  handler : Label
  caught : Option BinaryName
  deriving DecidableEq

/-- An entry of a table of local variables: the variable is in scope from the
label `first` up to, but not including, the label `stop`. -/
structure Entry where
  name : UnqualifiedName
  type : FieldType
  first : Label
  stop : Label
  slot : Nat
  deriving DecidableEq

/-- The body of a method.  `table` is `none` if there is no table of local
variables. -/
structure Code where
  maxStack : Nat
  maxLocals : Nat
  instructions : Array Instruction
  handlers : List Handler
  table : Option (List Entry)
  deriving DecidableEq

namespace Code

/-- Every label with its position, in the order of the code. -/
def labels (code : Code) : List (Label × Nat) :=
  code.instructions.toList.zipIdx.filterMap fun (instruction, position) =>
    instruction.label?.map (·, position)

/-- The position of a label; the last one counts if it is placed twice. -/
def position? (code : Code) (label : Label) : Option Nat :=
  (code.labels.reverse.find? (·.1 == label)).map Prod.snd

/-- The position of a label that an instruction needs. -/
def positionOf (code : Code) (label : Label) (instruction : Nat) : Except Error Nat :=
  match code.position? label with
  | some position => .ok position
  | none => .error (.frame instruction .missingLabel)

/-- Each label once, with its position, in ascending order of the labels. -/
def positions (code : Code) : List (Label × Nat) :=
  let distinct := (code.labels.map Prod.fst).eraseDups
  let ascending := distinct.mergeSort fun left right => left.number ≤ right.number
  ascending.filterMap fun label => (code.position? label).map (label, ·)

/-- A label that is beyond all labels of the code. -/
def freshLabel (code : Code) : Label :=
  code.labels.foldl (fun fresh (label, _) => ⟨max fresh.number label.next.number⟩) ⟨0⟩

end Code

end LocalTable
