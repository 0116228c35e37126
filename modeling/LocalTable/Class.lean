import LocalTable.Access
import LocalTable.Code

/-!
# Classes and methods

The parts of a class that matter for tables of local variables.
-/

namespace LocalTable

/-- A method.  Abstract and native methods have no code.  The recorded parameter
names, if there are any, follow the declared parameters; single names may be
missing. -/
structure Method where
  name : UnqualifiedName
  descriptor : MethodDescriptor
  access : MethodAccess
  code : Option Code
  parameterNames : Option (List (Option UnqualifiedName))
  deriving DecidableEq

namespace Method

/-- Has the method no receiver? -/
def isStatic (method : Method) : Bool :=
  method.access.isStatic

/-- Has the method no body of its own? -/
def isAbstract (method : Method) : Bool :=
  method.access.isAbstract

end Method

/-- What the hierarchy knows of a class or an interface. -/
structure ClassData where
  name : BinaryName
  /-- Interfaces have the root class as their superclass. -/
  superclass : Option BinaryName
  /-- Interfaces that are implemented or extended directly. -/
  interfaces : List BinaryName
  isInterface : Bool
  deriving DecidableEq

/-- The direct supertypes, the superclass first. -/
def ClassData.supertypes (data : ClassData) : List BinaryName :=
  data.superclass.toList ++ data.interfaces

/-- A class or an interface. -/
structure Class where
  name : BinaryName
  superclass : Option BinaryName
  interfaces : List BinaryName
  access : ClassAccess
  methods : List Method
  deriving DecidableEq

/-- What the hierarchy has to know of the class. -/
def Class.data (declared : Class) : ClassData :=
  { name := declared.name
    superclass := declared.superclass
    interfaces := declared.interfaces
    isInterface := declared.access.isInterface }

end LocalTable
