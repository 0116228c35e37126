import LocalTable.Edit
import LocalTable.Naming.Odometer
import LocalTable.Naming.Reserved
import LocalTable.Parameter
import LocalTable.Text.LowerCase

/-!
# Names of variables

Every variable of a table gets a name.  The receiver is `this`.  A parameter
keeps the name that is recorded for it.  All others are named after their types:
numbers by letters that are counted through, objects by their classes, arrays by
their elements in the plural.  Names that collide get the index of their entry
as a suffix.

Instead of this, all names can be replaced by one.
-/

namespace LocalTable

/-- How variables are to be named, and which entries are to be kept. -/
structure Settings where
  /-- Prefer recorded names of parameters to generated ones. -/
  keepParameterNames : Bool := true
  /-- Replace all names, also those of complete tables. -/
  obfuscateNames : Bool := false
  /-- Drop superfluous entries from generated tables. -/
  removeInvalidEntries : Bool := false
  /-- The name that replaces all names. -/
  obfuscatedName : UnqualifiedName := .snowman
  deriving DecidableEq

namespace Naming

/-- Types whose names are counted through, each by an odometer of its own. -/
inductive Counted where
  | number (type : BaseType)
  | array (element : BaseType)
  deriving DecidableEq

/-- The letter at which the names for a base type start. -/
def mnemonic : BaseType → Char
  | .char => 'c'
  | .byte => 'b'
  | .short => 's'
  | .int | .boolean => 'i'
  | .float => 'f'
  | .long => 'l'
  | .double => 'd'

/-- The letter at which the names for a type start. -/
def Counted.start : Counted → Char
  | .number type | .array type => mnemonic type

/-- The odometers in use. -/
abbrev Odometers := List (Counted × Odometer)

/-- The next name for a counted type. -/
def count (odometers : Odometers) (counted : Counted) : String × Odometers :=
  let odometer := (odometers.lookup counted).getD (.ofStart counted.start)
  (odometer.name, (counted, odometer.advance) :: odometers.filter (·.1 != counted))

/-- A class name without its package and the classes around it.  An anonymous
class, whose own name is a number, is named after the class around it. -/
def simpleName (name : BinaryName) : List Char :=
  match pieces '$' name.unqualifiedPart with
  | [] => []
  | outermost :: nested =>
      let named := nested.map (·.dropWhile Char.isDigit)
      (named.reverse.find? fun piece => !piece.isEmpty).getD outermost

/-- The name of an object, which is the name of its class in lower case. -/
def objectName (name : BinaryName) : String :=
  match simpleName name with
  | [] => "object"
  | first :: rest => String.ofList (Text.lowerCase first ++ rest)

/-- A name for a variable, after its type. -/
def typeName (odometers : Odometers) : FieldType → String × Odometers
  | .base .boolean => ("bl", odometers)
  | .base type => count odometers (.number type)
  | .ref (.object name) => (objectName name, odometers)
  | .ref (.objectArray _ element) => (objectName element ++ "s", odometers)
  | .ref (.primitiveArray _ .boolean) => ("bls", odometers)
  | .ref (.primitiveArray _ element) =>
      let (name, odometers) := count odometers (.array element)
      (name ++ "s", odometers)

/-- A name for a variable, after its type, that is not reserved. -/
def generate (odometers : Odometers) (type : FieldType) : String × Odometers :=
  let (name, odometers) := typeName odometers type
  (unreserved name, odometers)

/-- The name of an entry, and whether it is there to stay. -/
structure Choice where
  name : UnqualifiedName
  isFixed : Bool
  deriving DecidableEq

end Naming

namespace Method

/-- Is the entry of this index the first one of its slot? -/
def isFirst (entries : List Entry) (entry : Entry) (index : Nat) : Bool :=
  !(entries.take index).any fun other => other.slot = entry.slot

/-- The name that is recorded for the parameter in a slot. -/
def recordedName? (method : Method) (slot : Nat) : Option UnqualifiedName := do
  let parameter ← method.parameterSlots.findIdx? (· = slot)
  let names ← method.parameterNames
  (← names[parameter]?)

/-- Are recorded names of parameters to be used? -/
def usesRecorded (method : Method) (settings : Settings) (improve : Bool) : Bool :=
  improve && settings.keepParameterNames &&
    method.parameterNames.any fun names => !names.isEmpty

/-- Choose the name of an entry.  Without `improve`, existing names are left
alone unless all names are replaced. -/
def chooseName (method : Method) (settings : Settings) (improve : Bool)
    (entries : List Entry) (odometers : Naming.Odometers) (entry : Entry) (index : Nat) :
    Except Error (Naming.Choice × Naming.Odometers) :=
  let recorded :=
    if method.usesRecorded settings improve && isFirst entries entry index then
      method.recordedName? entry.slot
    else
      none
  if !method.isStatic && entry.slot = 0 then
    .ok (⟨.this, true⟩, odometers)
  else if settings.obfuscateNames then
    .ok (⟨settings.obfuscatedName, true⟩, odometers)
  else
    match recorded with
    | some name => .ok (⟨name, true⟩, odometers)
    | none =>
        if improve then
          let (text, odometers) := Naming.generate odometers entry.type
          match UnqualifiedName.ofString text with
          | .ok name => .ok (⟨name, false⟩, odometers)
          | .error fault => .error (.malformedName fault)
        else
          .ok (⟨entry.name, false⟩, odometers)

/-- Choose the names of entries in order. -/
def chooseNames (method : Method) (settings : Settings) (improve : Bool)
    (entries : List Entry) (odometers : Naming.Odometers) :
    List (Entry × Nat) → Except Error (List Naming.Choice)
  | [] => .ok []
  | (entry, index) :: rest => do
      let (choice, odometers) ← method.chooseName settings improve entries
        odometers entry index
      let choices ← method.chooseNames settings improve entries odometers rest
      return choice :: choices

end Method

namespace Naming

/-- The names that occur more than once, each once. -/
def collisions (choices : List Choice) : List UnqualifiedName :=
  let names := choices.map Choice.name
  (names.filter fun name => 1 < names.count name).eraseDups

/-- Give colliding names the index of their entry as a suffix. -/
def disambiguate (choices : List Choice) : List UnqualifiedName :=
  let colliding := collisions choices
  choices.zipIdx.map fun (choice, index) =>
    if !choice.isFixed && colliding.contains choice.name then choice.name.numbered index
    else choice.name

end Naming

namespace Method

/-- Record the names of parameters as they are in the table. -/
def recordNames (method : Method) (entries : List Entry) : Method :=
  let name? (slot : Nat) : Option UnqualifiedName :=
    (entries.find? fun entry => entry.slot = slot).map Entry.name
  let update (names : List (Option UnqualifiedName)) : List (Option UnqualifiedName) :=
    names.mapIdx fun index recorded =>
      match method.parameterSlots[index]? with
      | some slot => (name? slot).or recorded
      | none => recorded
  { method with parameterNames := method.parameterNames.map update }

/-- Put names into the table. -/
def withNames (method : Method) (code : Code) (entries : List Entry)
    (names : List UnqualifiedName) : Method :=
  let named := entries.zipWith (fun entry name => { entry with name := name }) names
  { method with code := some { code with table := some named } }.recordNames named

end Method

variable {hierarchy : Hierarchy}

/-- Name every entry in the table of the method.  All names are chosen before the
first one is written. -/
def Edit.nameVariables (settings : Settings) (improve : Bool) : Edit hierarchy Unit := do
  let method ← get
  match method.code with
  | none => pure ()
  | some code =>
      match code.table with
      | none => pure ()
      | some entries =>
          let choices ← ask (.ofExcept
            (method.chooseNames settings improve entries [] entries.zipIdx))
          if improve && !settings.obfuscateNames &&
              !(Naming.collisions choices).isEmpty then
            tell (.namesCollide (Naming.collisions choices).length)
            set (method.withNames code entries (Naming.disambiguate choices))
          else
            set (method.withNames code entries (choices.map Naming.Choice.name))

/-- Name every entry in the table of a method. -/
def Query.nameVariables (method : Method) (settings : Settings) (improve : Bool) :
    Query hierarchy Method :=
  return (← (Edit.nameVariables settings improve).apply method).1

end LocalTable
