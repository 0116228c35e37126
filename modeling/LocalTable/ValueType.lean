import LocalTable.Descriptor

/-!
# Types of values

The analysis gives every value in a local slot or on the operand stack a type.
Unlike the machine, it keeps the narrow integer types apart: `boolean`, `byte`,
`char` and `short` all behave as `int` at run time, but a variable table that
tells them apart reads far better.
-/

namespace LocalTable

/-- The type of a value as the analysis sees it.  `null` is the type of the null
literal, which fits every reference type; `top` fills the second slot of a
`long` or a `double`. -/
inductive ValueType where
  | boolean
  | byte
  | char
  | short
  | int
  | float
  | long
  | double
  | null
  | reference (type : RefType)
  | top
  deriving DecidableEq

namespace ValueType

/-- Slots that a value takes. -/
def width : ValueType → Nat
  | .long | .double => 2
  | _ => 1

/-- The type of the values of a base type. -/
def ofBase : BaseType → ValueType
  | .boolean => .boolean
  | .byte => .byte
  | .char => .char
  | .short => .short
  | .int => .int
  | .float => .float
  | .long => .long
  | .double => .double

/-- The type of the values of a field. -/
def ofField : FieldType → ValueType
  | .base type => ofBase type
  | .ref type => .reference type

/-- Objects of a class. -/
def object (name : BinaryName) : ValueType :=
  .reference (.object name)

/-- Objects of any class. -/
def anyObject : ValueType :=
  object .object

/-- Types that the machine represents as `int`. -/
def isIntLike : ValueType → Bool
  | .boolean | .byte | .char | .short | .int => true
  | _ => false

/-- Types that the machine represents as `int`, apart from `int` itself. -/
def isNarrowerThanInt (type : ValueType) : Bool :=
  type.isIntLike && type != .int

/-- Types of references, the null literal included. -/
def isReference : ValueType → Bool
  | .null | .reference _ => true
  | _ => false

/-- The reference type, if the null literal is not meant. -/
def refType? : ValueType → Option RefType
  | .reference type => some type
  | _ => none

/-- Type of the values inside an array of this type. -/
def component? (type : ValueType) : Option ValueType :=
  (type.refType?.bind RefType.component?).map ofField

/-- Result of an `int` operation.  A `boolean` operand adopts the type of the
other one; any other mixture is an `int`. -/
def intJoin (left right : ValueType) : ValueType :=
  if left = right then left
  else if left = .boolean then right
  else if right = .boolean then left
  else .int

/-- The type written into a variable table.  A variable that only ever held null
is written as an object; the second slot of a wide value has no type. -/
def fieldType? : ValueType → Option FieldType
  | .boolean => some (.base .boolean)
  | .byte => some (.base .byte)
  | .char => some (.base .char)
  | .short => some (.base .short)
  | .int => some (.base .int)
  | .float => some (.base .float)
  | .long => some (.base .long)
  | .double => some (.base .double)
  | .null => some (.object .object)
  | .reference type => some (.ref type)
  | .top => none

/-- The name of a reference type in diagnostics. -/
def refLabel : RefType → String
  | .object name => s!"Object({name})"
  | .objectArray extra element => s!"ObjectArray({arrayLabel extra element.text})"
  | .primitiveArray extra element => s!"PrimitiveArray({arrayLabel extra element.label})"
where
  arrayLabel (extra : Nat) (element : String) : String :=
    s!"ArrayType \x7b additional_dimensions: {extra}, element_type: {element} \x7d"

/-- The name of a type in diagnostics. -/
def label : ValueType → String
  | .boolean => "Boolean"
  | .byte => "Byte"
  | .char => "Char"
  | .short => "Short"
  | .int => "Int"
  | .float => "Float"
  | .long => "Long"
  | .double => "Double"
  | .null => "Null"
  | .reference type => s!"Reference({refLabel type})"
  | .top => "Top"

end ValueType

end LocalTable
