import LocalTable.Name

/-!
# Types in descriptors

A descriptor names the type of a field or the parameters and result of a
method.  A field has a base type or a reference type; a reference is an object
of a class or an array, which is given by its innermost elements and the number
of its dimensions beyond the first.

Values of `long` and `double` take two slots of the local variables or of the
operand stack, all others take one.
-/

namespace LocalTable

/-- The primitive types. -/
inductive BaseType where
  | byte
  | char
  | double
  | float
  | int
  | long
  | short
  | boolean
  deriving DecidableEq, Repr

namespace BaseType

/-- The letter of a base type in descriptors. -/
def code : BaseType → Char
  | .byte => 'B'
  | .char => 'C'
  | .double => 'D'
  | .float => 'F'
  | .int => 'I'
  | .long => 'J'
  | .short => 'S'
  | .boolean => 'Z'

/-- The base type of a letter. -/
def ofCode? (character : Char) : Option BaseType :=
  if character = 'B' then some .byte
  else if character = 'C' then some .char
  else if character = 'D' then some .double
  else if character = 'F' then some .float
  else if character = 'I' then some .int
  else if character = 'J' then some .long
  else if character = 'S' then some .short
  else if character = 'Z' then some .boolean
  else none

/-- Slots that a value takes. -/
def width : BaseType → Nat
  | .double | .long => 2
  | _ => 1

/-- The name of a base type in diagnostics. -/
def label : BaseType → String
  | .byte => "Byte"
  | .char => "Char"
  | .double => "Double"
  | .float => "Float"
  | .int => "Int"
  | .long => "Long"
  | .short => "Short"
  | .boolean => "Boolean"

end BaseType

/-- Types of references.  `extra` counts the dimensions of an array beyond the
first one. -/
inductive RefType where
  | object (name : BinaryName)
  | objectArray (extra : Nat) (element : BinaryName)
  | primitiveArray (extra : Nat) (element : BaseType)
  deriving DecidableEq

/-- Types of fields, parameters and local variables. -/
inductive FieldType where
  | base (type : BaseType)
  | ref (type : RefType)
  deriving DecidableEq

namespace FieldType

/-- Slots that a value takes. -/
def width : FieldType → Nat
  | .base type => type.width
  | .ref _ => 1

/-- Objects of a class. -/
def object (name : BinaryName) : FieldType :=
  .ref (.object name)

end FieldType

namespace RefType

/-- Array of objects with the given number of dimensions; without dimensions it
is the object type itself. -/
def ofDimensions (element : BinaryName) : Nat → RefType
  | 0 => .object element
  | extra + 1 => .objectArray extra element

/-- Array with components of the given type. -/
def array : FieldType → RefType
  | .base element => .primitiveArray 0 element
  | .ref (.object element) => .objectArray 0 element
  | .ref (.objectArray extra element) => .objectArray (extra + 1) element
  | .ref (.primitiveArray extra element) => .primitiveArray (extra + 1) element

/-- Number of array dimensions, which is zero for objects. -/
def dimensions : RefType → Nat
  | .object _ => 0
  | .objectArray extra _ | .primitiveArray extra _ => extra + 1

/-- Type of the components of an array. -/
def component? : RefType → Option FieldType
  | .object _ => none
  | .objectArray extra element => some (.ref (ofDimensions element extra))
  | .primitiveArray 0 element => some (.base element)
  | .primitiveArray (extra + 1) element => some (.ref (.primitiveArray extra element))

end RefType

/-- Parameters and result of a method; a method without a result has none. -/
structure MethodDescriptor where
  parameters : List FieldType
  result : Option FieldType
  deriving DecidableEq

namespace MethodDescriptor

/-- Slots that the parameters take, with one more for the receiver if there is
one. -/
def parameterLength (descriptor : MethodDescriptor) (hasReceiver : Bool) : Nat :=
  hasReceiver.toNat +
    descriptor.parameters.foldr (fun parameter total => parameter.width + total) 0

end MethodDescriptor

end LocalTable
