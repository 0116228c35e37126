/-!
# Access flags

Classes and methods carry a word of flags.  Bits without a meaning for the kind
of declaration are dropped when the word is read.
-/

namespace LocalTable

/-- The flags of a class. -/
structure ClassAccess where
  bits : Nat
  deriving DecidableEq, Repr

namespace ClassAccess

/-- The bits with a meaning for classes: public, final, super, interface,
abstract, synthetic, annotation, enum and module. -/
def meaningful : Nat := 0xf631

/-- Read a word of flags. -/
def ofBits (bits : Nat) : ClassAccess :=
  ⟨bits &&& meaningful⟩

/-- Does the word declare an interface? -/
def isInterface (access : ClassAccess) : Bool :=
  access.bits.testBit 9

end ClassAccess

/-- The flags of a method. -/
structure MethodAccess where
  bits : Nat
  deriving DecidableEq, Repr

namespace MethodAccess

/-- The bits with a meaning for methods: public, private, protected, static,
final, synchronized, bridge, varargs, native, abstract, strict and synthetic. -/
def meaningful : Nat := 0x1dff

/-- Read a word of flags. -/
def ofBits (bits : Nat) : MethodAccess :=
  ⟨bits &&& meaningful⟩

/-- Has the method no receiver? -/
def isStatic (access : MethodAccess) : Bool :=
  access.bits.testBit 3

/-- Has the method no body of its own? -/
def isAbstract (access : MethodAccess) : Bool :=
  access.bits.testBit 10

end MethodAccess

end LocalTable
