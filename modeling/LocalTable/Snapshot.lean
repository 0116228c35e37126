import LocalTable.Descriptor

/-!
# Labels and stack map snapshots

A label marks a position in the code of a method; everything that refers to a
position does so through a label.

A stack map snapshot describes the locals and the operand stack at a position,
in most forms as a change to the snapshot before it.  A `long` or a `double` is
a single item of a snapshot, though it takes two slots.
-/

namespace LocalTable

/-- A marker of a position. -/
structure Label where
  number : Nat
  deriving DecidableEq

namespace Label

instance : ToString Label := ⟨fun label => s!"l{label.number}"⟩

/-- The label after this one. -/
def next (label : Label) : Label :=
  ⟨label.number + 1⟩

/-- The largest number of a label, which takes 32 bits. -/
def lastNumber : Nat := 4294967295

end Label

/-- Types as snapshots record them. -/
inductive VerificationType where
  /-- A slot that cannot be used. -/
  | top
  | integer
  | float
  | double
  | long
  | null
  /-- The receiver of a constructor before its superclass is set up. -/
  | uninitializedThis
  | object (type : RefType)
  /-- An object created by the `new` behind the label, before it is set up. -/
  | uninitialized (created : Label)
  deriving DecidableEq

/-- Is this the type of a reference? -/
def VerificationType.isReference : VerificationType → Bool
  | .top | .integer | .float | .double | .long => false
  | .null | .uninitializedThis | .object _ | .uninitialized _ => true

/-- A description of the state at a position. -/
inductive Snapshot where
  /-- The locals of the snapshot before, and an empty stack. -/
  | same
  /-- The locals of the snapshot before, and one value on the stack. -/
  | sameOneStack (value : VerificationType)
  /-- The snapshot before without its last locals, and an empty stack. -/
  | chop (count : Nat)
  /-- The snapshot before with more locals, and an empty stack. -/
  | append (locals : List VerificationType)
  /-- All locals and the whole stack. -/
  | full (locals stack : List VerificationType)
  deriving DecidableEq

end LocalTable
