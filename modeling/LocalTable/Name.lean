/-!
# Names

Methods, fields and local variables have unqualified names; classes and
interfaces have binary names, which are unqualified names joined by slashes.
Four characters delimit names inside descriptors and paths, so no unqualified
name holds one of them, and no unqualified name is empty.

A name is a text together with the proof that it obeys these rules.  Reading a
name either succeeds or says which rule is broken first.
-/

namespace LocalTable

/-- Characters that delimit names in descriptors and paths. -/
def isDelimiter (character : Char) : Bool :=
  character == '.' || character == ';' || character == '[' || character == '/'

/-- What an unqualified name, or one segment of a binary name, may be. -/
def IsSegment (characters : List Char) : Prop :=
  characters ≠ [] ∧ ∀ character ∈ characters, isDelimiter character = false

instance (characters : List Char) : Decidable (IsSegment characters) :=
  decidable_of_iff
    ((!characters.isEmpty && characters.all fun character =>
      !isDelimiter character) = true)
    (by simp [IsSegment])

/-- Why a text is no segment of a name. -/
inductive SegmentFault where
  | empty
  | delimiter (text : String) (character : Char)
  deriving DecidableEq, Repr

/-- The first rule that a segment breaks. -/
def segmentFault? (characters : List Char) : Option SegmentFault :=
  if characters = [] then
    some .empty
  else
    (characters.find? isDelimiter).map (.delimiter (String.ofList characters))

theorem segmentFault?_eq_none {characters : List Char} :
    segmentFault? characters = none ↔ IsSegment characters := by
  unfold segmentFault? IsSegment
  by_cases empty : characters = []
  · simp [empty]
  · simp [empty]

/-- The parts of a text between separators, in order. -/
def pieces (separator : Char) : List Char → List (List Char)
  | [] => [[]]
  | character :: rest =>
      if character = separator then
        [] :: pieces separator rest
      else
        match pieces separator rest with
        | [] => [[character]]
        | piece :: others => (character :: piece) :: others

/-- The parts of a binary name, in order. -/
def segments (characters : List Char) : List (List Char) :=
  pieces '/' characters

/-- Why a text is no name. -/
inductive NameFault where
  | unqualified (fault : SegmentFault)
  | emptyBinary
  | binary (name : String) (fault : SegmentFault)
  deriving DecidableEq, Repr

/-- The wording of a fault in a segment. -/
def SegmentFault.message : SegmentFault → String
  | .empty => "Unqualified name is empty"
  | .delimiter text character =>
      s!"Unqualified name '{text}' contains illegal '{character}'"

/-- The wording of a fault in a name. -/
def NameFault.message : NameFault → String
  | .unqualified fault => fault.message
  | .emptyBinary => "Binary name is empty"
  | .binary name fault => s!"In binary name '{name}': {fault.message}"

/-- The name of a method, a field or a local variable. -/
structure UnqualifiedName where
  text : String
  valid : IsSegment text.toList
  deriving DecidableEq

namespace UnqualifiedName

instance : ToString UnqualifiedName := ⟨text⟩

/-- Read an unqualified name. -/
def ofString (text : String) : Except NameFault UnqualifiedName :=
  match outcome : segmentFault? text.toList with
  | some fault => .error (.unqualified fault)
  | none => .ok ⟨text, segmentFault?_eq_none.mp outcome⟩

theorem isDelimiter_of_isDigit {character : Char} (digit : character.isDigit = true) :
    isDelimiter character = false := by
  unfold isDelimiter
  simp only [Bool.or_eq_false_iff, beq_eq_false_iff_ne]
  refine ⟨⟨⟨?_, ?_⟩, ?_⟩, ?_⟩ <;>
    · intro equal
      subst equal
      contradiction

/-- A name followed by a number. -/
def numbered (stem : UnqualifiedName) (number : Nat) : UnqualifiedName where
  text := stem.text ++ number.repr
  valid := by
    rw [String.toList_append, Nat.toList_repr]
    refine ⟨by simp [stem.valid.1], fun character member => ?_⟩
    rcases List.mem_append.mp member with inStem | inNumber
    · exact stem.valid.2 character inStem
    · exact isDelimiter_of_isDigit
        (Nat.isDigit_of_mem_toDigits (by decide) (by decide) inNumber)

/-- The receiver of an instance method. -/
def this : UnqualifiedName := ⟨"this", by decide⟩

/-- The name that stands for every variable when names are hidden. -/
def snowman : UnqualifiedName := ⟨"☃", by decide⟩

end UnqualifiedName

/-- The name of a class or an interface, with slashes between packages. -/
structure BinaryName where
  text : String
  valid : ∀ segment ∈ segments text.toList, IsSegment segment
  deriving DecidableEq

namespace BinaryName

instance : ToString BinaryName := ⟨text⟩

/-- Read a binary name. -/
def ofString (text : String) : Except NameFault BinaryName :=
  if text = "" then
    .error .emptyBinary
  else
    match outcome : (segments text.toList).findSome? segmentFault? with
    | some fault => .error (.binary text fault)
    | none =>
        .ok ⟨text, fun segment member =>
          segmentFault?_eq_none.mp (List.findSome?_eq_none_iff.mp outcome segment member)⟩

/-- A name known to be valid when the library is compiled. -/
def known (text : String)
    (valid : ∀ segment ∈ segments text.toList, IsSegment segment := by decide +kernel) :
    BinaryName :=
  ⟨text, valid⟩

/-- The name of the class without its package. -/
def unqualifiedPart (name : BinaryName) : List Char :=
  (segments name.text.toList).getLastD []

/-- The root of the class hierarchy. -/
def object : BinaryName := known "java/lang/Object"

/-- The class of texts. -/
def string : BinaryName := known "java/lang/String"

/-- The class of classes. -/
def classObject : BinaryName := known "java/lang/Class"

/-- The class of everything that can be thrown. -/
def throwable : BinaryName := known "java/lang/Throwable"

/-- The class of method types. -/
def methodType : BinaryName := known "java/lang/invoke/MethodType"

/-- The class of method handles. -/
def methodHandle : BinaryName := known "java/lang/invoke/MethodHandle"

end BinaryName

end LocalTable
