import LocalTable.Descriptor

/-!
# Rendering descriptors

Every type has exactly one descriptor.  Base types are single letters, a class
stands between `L` and `;`, each dimension of an array is a `[`, and a method
lists its parameters between parentheses before its result, which is `V` if
there is none.
-/

namespace LocalTable

/-- The descriptor of a base type. -/
def BaseType.characters (type : BaseType) : List Char :=
  [type.code]

/-- The descriptor of the objects of a class. -/
def BinaryName.characters (name : BinaryName) : List Char :=
  'L' :: name.text.toList ++ [';']

/-- The descriptor of a reference type. -/
def RefType.characters : RefType → List Char
  | .object name => name.characters
  | .objectArray extra element => List.replicate (extra + 1) '[' ++ element.characters
  | .primitiveArray extra element => List.replicate (extra + 1) '[' ++ element.characters

/-- The descriptor of a field type. -/
def FieldType.characters : FieldType → List Char
  | .base type => type.characters
  | .ref type => type.characters

/-- The descriptor of a method. -/
def MethodDescriptor.characters (descriptor : MethodDescriptor) : List Char :=
  '(' :: descriptor.parameters.flatMap FieldType.characters ++
    ')' :: (descriptor.result.map FieldType.characters).getD ['V']

/-- The descriptor of a base type, as a text. -/
def BaseType.render (type : BaseType) : String :=
  String.ofList type.characters

/-- The descriptor of the objects of a class, as a text. -/
def BinaryName.render (name : BinaryName) : String :=
  String.ofList name.characters

/-- The descriptor of a reference type, as a text. -/
def RefType.render (type : RefType) : String :=
  String.ofList type.characters

/-- The descriptor of a field type, as a text. -/
def FieldType.render (type : FieldType) : String :=
  String.ofList type.characters

/-- The descriptor of a method, as a text. -/
def MethodDescriptor.render (descriptor : MethodDescriptor) : String :=
  String.ofList descriptor.characters

end LocalTable
