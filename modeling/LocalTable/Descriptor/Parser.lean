import LocalTable.Descriptor
import LocalTable.Text.Quoted

/-!
# Reading descriptors

A reader takes what it needs from the front of a text and returns the rest, or
says what it missed and where.  A descriptor must be read to its end.  Places
are counted in bytes of the text's UTF-8 form.
-/

namespace LocalTable

/-- What a reader of descriptors missed. -/
inductive Missed where
  | character (expected : Char)
  | terminator (expected : Char)
  | primitiveType
  | referenceType
  | closingParenthesis
  | endOfText
  deriving DecidableEq, Repr

/-- The wording of what was missed. -/
def Missed.message : Missed → String
  | .character expected => s!"expected '{expected}'"
  | .terminator expected => s!"missing '{expected}'"
  | .primitiveType => "expected a primitive type"
  | .referenceType => "expected a reference type"
  | .closingParenthesis => "unterminated parameter list"
  | .endOfText => "trailing input"

/-- Why a text is no descriptor. -/
inductive DescriptorFault where
  | missed (what : Missed) (offset : Nat) (source : String)
  | name (fault : NameFault)
  deriving DecidableEq, Repr

/-- The wording of a fault in a descriptor. -/
def DescriptorFault.message : DescriptorFault → String
  | .missed what offset source =>
      s!"{what.message} at offset {offset} of {Text.quoted source}"
  | .name fault => fault.message

namespace Descriptor

/-- Why a reader stopped; the place is given by the text that was left. -/
inductive Stop where
  | missed (what : Missed) (rest : List Char)
  | name (fault : NameFault)

/-- A reader takes a value from the front of a text. -/
abbrev Reader (α : Type) := List Char → Except Stop (α × List Char)

/-- Take the expected character.  A wrong character is taken as well, so the
place of the fault is behind it. -/
def expect (expected : Char) : Reader Unit
  | [] => .error (.missed (.character expected) [])
  | character :: rest =>
      if character = expected then .ok ((), rest)
      else .error (.missed (.character expected) rest)

/-- Take everything before the terminator, and the terminator. -/
def takeUntil (terminator : Char) (text : List Char) :
    Except Stop (List Char × List Char) :=
  match text.dropWhile (· != terminator) with
  | _ :: rest => .ok (text.takeWhile (· != terminator), rest)
  | [] => .error (.missed (.terminator terminator) text)

/-- Read a base type. -/
def readBase : Reader BaseType
  | [] => .error (.missed .primitiveType [])
  | character :: rest =>
      match BaseType.ofCode? character with
      | some type => .ok (type, rest)
      | none => .error (.missed .primitiveType (character :: rest))

/-- Read a class between `L` and `;`. -/
def readBinary : Reader BinaryName := fun text => do
  let ((), rest) ← expect 'L' text
  let (name, rest) ← takeUntil ';' rest
  match BinaryName.ofString (String.ofList name) with
  | .ok name => .ok (name, rest)
  | .error fault => .error (.name fault)

/-- Read a reference type. -/
def readRef : Reader RefType := fun text =>
  let dimensions := (text.takeWhile (· == '[')).length
  let rest := text.dropWhile (· == '[')
  if rest.head? = some 'L' then do
    let (name, rest) ← readBinary rest
    return (RefType.ofDimensions name dimensions, rest)
  else
    match dimensions with
    | 0 => .error (.missed .referenceType rest)
    | extra + 1 => do
        let (element, rest) ← readBase rest
        return (.primitiveArray extra element, rest)

/-- Read a field type. -/
def readField : Reader FieldType := fun text =>
  if text.head? = some 'L' ∨ text.head? = some '[' then do
    let (type, rest) ← readRef text
    return (.ref type, rest)
  else do
    let (type, rest) ← readBase text
    return (.base type, rest)

theorem length_lt_of_readBase {text rest : List Char} {type : BaseType}
    (read : readBase text = .ok (type, rest)) : rest.length < text.length := by
  unfold readBase at read
  split at read
  · contradiction
  · split at read
    · cases read
      simp
    · contradiction

theorem length_lt_of_takeUntil {terminator : Char} {text before rest : List Char}
    (taken : takeUntil terminator text = .ok (before, rest)) :
    rest.length < text.length := by
  have short := (List.dropWhile_suffix (l := text) (· != terminator)).length_le
  unfold takeUntil at taken
  split at taken
  next dropped =>
    cases taken
    rw [dropped, List.length_cons] at short
    omega
  · contradiction

theorem length_lt_of_readBinary {text rest : List Char} {name : BinaryName}
    (read : readBinary text = .ok (name, rest)) : rest.length < text.length := by
  unfold readBinary at read
  cases text with
  | nil => contradiction
  | cons character text =>
      unfold expect at read
      by_cases letter : character = 'L'
      · simp only [letter, if_true, bind, Except.bind] at read
        split at read
        · contradiction
        next taken =>
          have := length_lt_of_takeUntil taken
          split at read
          · cases read
            simp only [List.length_cons]
            omega
          · contradiction
      · simp [letter, bind, Except.bind] at read

theorem length_lt_of_readRef {text rest : List Char} {type : RefType}
    (read : readRef text = .ok (type, rest)) : rest.length < text.length := by
  have short := (List.dropWhile_suffix (l := text) (· == '[')).length_le
  unfold readRef at read
  dsimp only at read
  split at read
  · simp only [bind, Except.bind, pure, Except.pure] at read
    split at read
    · contradiction
    next named =>
      have := length_lt_of_readBinary named
      cases read
      omega
  · split at read
    · contradiction
    · simp only [bind, Except.bind, pure, Except.pure] at read
      split at read
      · contradiction
      next based =>
        have := length_lt_of_readBase based
        cases read
        omega

/-- A field type takes at least one character. -/
theorem length_lt_of_readField {text rest : List Char} {type : FieldType}
    (read : readField text = .ok (type, rest)) : rest.length < text.length := by
  unfold readField at read
  split at read
  · simp only [bind, Except.bind, pure, Except.pure] at read
    split at read
    · contradiction
    next taken =>
      have := length_lt_of_readRef taken
      cases read
      exact this
  · simp only [bind, Except.bind, pure, Except.pure] at read
    split at read
    · contradiction
    next taken =>
      have := length_lt_of_readBase taken
      cases read
      exact this

/-- Read field types up to a closing parenthesis, which is left. -/
def readParameters (text : List Char) : Except Stop (List FieldType × List Char) :=
  match text with
  | [] => .error (.missed .closingParenthesis [])
  | character :: following =>
      if character = ')' then
        .ok ([], character :: following)
      else
        match read : readField (character :: following) with
        | .error stop => .error stop
        | .ok (type, rest) =>
            have := length_lt_of_readField read
            match readParameters rest with
            | .error stop => .error stop
            | .ok (types, rest) => .ok (type :: types, rest)
termination_by text.length
decreasing_by exact this

/-- Read the result of a method. -/
def readResult : Reader (Option FieldType) := fun text =>
  match text with
  | 'V' :: rest => .ok (none, rest)
  | _ => do
      let (type, rest) ← readField text
      return (some type, rest)

/-- Read the parameters and the result of a method. -/
def readMethod : Reader MethodDescriptor := fun text => do
  let ((), rest) ← expect '(' text
  let (parameters, rest) ← readParameters rest
  let ((), rest) ← expect ')' rest
  let (result, rest) ← readResult rest
  return (⟨parameters, result⟩, rest)

/-- Bytes of a text in UTF-8. -/
def byteLength (text : List Char) : Nat :=
  text.foldr (fun character total => character.utf8Size + total) 0

/-- The fault of a reader that stopped inside a source. -/
def Stop.within (source : String) : Stop → DescriptorFault
  | .missed what rest =>
      .missed what (byteLength source.toList - byteLength rest) source
  | .name fault => .name fault

/-- Read a whole text. -/
def readAll {α : Type} (reader : Reader α) (source : String) : Except DescriptorFault α :=
  match reader source.toList with
  | .ok (value, []) => .ok value
  | .ok (_, rest) => .error (Stop.within source (.missed .endOfText rest))
  | .error stop => .error (stop.within source)

end Descriptor

/-- Read the descriptor of a base type. -/
def BaseType.parse (source : String) : Except DescriptorFault BaseType :=
  Descriptor.readAll Descriptor.readBase source

/-- Read the descriptor of the objects of a class. -/
def BinaryName.parse (source : String) : Except DescriptorFault BinaryName :=
  Descriptor.readAll Descriptor.readBinary source

/-- Read the descriptor of a reference type. -/
def RefType.parse (source : String) : Except DescriptorFault RefType :=
  Descriptor.readAll Descriptor.readRef source

/-- Read the descriptor of a field type. -/
def FieldType.parse (source : String) : Except DescriptorFault FieldType :=
  Descriptor.readAll Descriptor.readField source

/-- Read the descriptor of a method. -/
def MethodDescriptor.parse (source : String) : Except DescriptorFault MethodDescriptor :=
  Descriptor.readAll Descriptor.readMethod source

end LocalTable
