import LocalTable.Class

/-!
# Slots of parameters

The parameters of a method lie in its first slots: the receiver, if there is
one, then the declared parameters in order, each with as many slots as its type
takes.
-/

namespace LocalTable

/-- What a slot is for at the start of a method. -/
inductive SlotRole where
  | receiver
  /-- The first slot of the parameter of this index. -/
  | parameter (index : Nat)
  /-- The second slot of a wide parameter. -/
  | upperHalf
  /-- A slot behind all parameters. -/
  | free
  deriving DecidableEq, Repr

/-- The role of a slot, counted from the first slot of the given parameters, the
first of which has the given index. -/
def SlotRole.among (slot index : Nat) : List FieldType → SlotRole
  | [] => .free
  | type :: rest =>
      if slot = 0 then .parameter index
      else if slot < type.width then .upperHalf
      else among (slot - type.width) (index + 1) rest

namespace Method

/-- What a slot is for at the start of the method. -/
def role (method : Method) (slot : Nat) : SlotRole :=
  if method.isStatic then
    .among slot 0 method.descriptor.parameters
  else
    match slot with
    | 0 => .receiver
    | slot + 1 => .among slot 0 method.descriptor.parameters

/-- Slots of parameters from a slot onwards. -/
def slotsFrom (slot : Nat) : List FieldType → List Nat
  | [] => []
  | parameter :: rest => slot :: slotsFrom (slot + parameter.width) rest

/-- The first slot of every declared parameter.  Slots are 16-bit numbers. -/
def parameterSlots (method : Method) : List Nat :=
  (slotsFrom (if method.isStatic then 0 else 1) method.descriptor.parameters).map
    (· % 65536)

end Method

end LocalTable
