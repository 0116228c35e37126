import LocalTable.Descriptor.Parser
import LocalTable.Descriptor.Printer
import LocalTable.Proofs.Query

/-!
# Descriptors and their readers

A reader takes the descriptor of a value off the front of a text, whatever follows it,
and takes nothing else.  For each kind of descriptor there are two lemmas: the reader
gives the value back from its descriptor, and what it has taken is the descriptor of
what it gives.

The end of a descriptor shows in its characters.  A class name holds no semicolon, no base
type is written as a bracket or as an `L`, and a closing parenthesis begins no field type.
-/

namespace LocalTable

/-! ## Names -/

/-- A character of a text is a separator or belongs to a piece. -/
theorem exists_piece_of_mem {separator character : Char} {text : List Char}
    (member : character ∈ text) (isOther : character ≠ separator) :
    ∃ piece ∈ pieces separator text, character ∈ piece := by
  induction text with
  | nil => cases member
  | cons first rest ih =>
      unfold pieces
      split
      next isSeparator =>
        have inRest : character ∈ rest := by
          apply List.mem_of_ne_of_mem _ member
          rw [isSeparator]
          exact isOther
        rcases ih inRest with ⟨piece, isPiece, inPiece⟩
        exact ⟨piece, List.mem_cons_of_mem _ isPiece, inPiece⟩
      next =>
        rcases List.mem_cons.mp member with isFirst | inRest
        · cases pieces separator rest <;> simp [isFirst]
        · rcases ih inRest with ⟨piece, isPiece, inPiece⟩
          cases split : pieces separator rest with
          | nil =>
              rw [split] at isPiece
              cases isPiece
          | cons head others =>
              rw [split] at isPiece
              rcases List.mem_cons.mp isPiece with isHead | inOthers
              · exact ⟨first :: head, by simp, by simp [← isHead, inPiece]⟩
              · exact ⟨piece, by simp [inOthers], inPiece⟩

namespace BinaryName

theorem semicolon_not_mem (name : BinaryName) : ';' ∉ name.text.toList := by
  intro member
  have isOther : ';' ≠ '/' := by decide
  rcases exists_piece_of_mem member isOther with ⟨segment, isSegment, inSegment⟩
  have plain := (name.valid segment isSegment).2 ';' inSegment
  contradiction

theorem ofString_text (name : BinaryName) : ofString name.text = .ok name := by
  have notEmpty : name.text ≠ "" := by
    intro isEmpty
    have segment := name.valid [] (by simp [isEmpty, segments, pieces])
    exact segment.1 rfl
  unfold ofString
  rw [if_neg notEmpty]
  split
  next fault isFault =>
    rcases List.exists_of_findSome?_eq_some isFault with ⟨segment, member, broken⟩
    rw [segmentFault?_eq_none.mpr (name.valid segment member)] at broken
    cases broken
  next => rfl

theorem text_of_ofString {text : String} {name : BinaryName}
    (read : ofString text = .ok name) :
    name.text = text := by
  unfold ofString at read
  split at read
  · cases read
  · split at read
    · cases read
    · cases read
      rfl

end BinaryName

namespace Descriptor

/-- The reader takes the written form of a value off the front of a text, and no other
text. -/
structure Reads {α : Type} (reader : Reader α) (characters : α → List Char) : Prop where
  takes : ∀ value rest, reader (characters value ++ rest) = .ok (value, rest)
  only : ∀ {text value rest}, reader text = .ok (value, rest) →
    text = characters value ++ rest

/-! ## Single characters and names -/

@[simp] theorem expect_cons (expected : Char) (rest : List Char) :
    expect expected (expected :: rest) = .ok ((), rest) := by
  simp [expect]

theorem eq_of_expect {expected : Char} {text rest : List Char} {value : Unit}
    (read : expect expected text = .ok (value, rest)) : text = expected :: rest := by
  cases text with
  | nil => cases read
  | cons character following =>
      simp only [expect] at read
      split at read
      next same =>
        cases read
        rw [same]
      next => cases read

/-- Characters that go on, before one that does not, are taken together. -/
theorem span_append {goesOn : Char → Bool} {front rest : List Char}
    (inside : ∀ character ∈ front, goesOn character = true)
    (stops : ∀ character, rest.head? = some character → goesOn character = false) :
    (front ++ rest).takeWhile goesOn = front ∧
    (front ++ rest).dropWhile goesOn = rest := by
  rw [List.takeWhile_append_of_pos inside, List.dropWhile_append_of_pos inside]
  cases rest with
  | nil => simp
  | cons character following => simp [stops character rfl]

theorem takeUntil_append {terminator : Char} {before : List Char}
    (absent : terminator ∉ before) (rest : List Char) :
    takeUntil terminator (before ++ terminator :: rest) = .ok (before, rest) := by
  have others : ∀ character ∈ before, (character != terminator) = true := by
    intro character member
    rw [bne_iff_ne]
    intro same
    exact absent (same ▸ member)
  have ⟨taken, dropped⟩ := @span_append (· != terminator) before
    (terminator :: rest) others (by simp)
  rw [takeUntil, taken, dropped]

theorem eq_of_takeUntil {terminator : Char} {text before rest : List Char}
    (taken : takeUntil terminator text = .ok (before, rest)) :
    text = before ++ terminator :: rest := by
  unfold takeUntil at taken
  split at taken
  next last following dropped =>
    have isTerminator : last = terminator := by
      have stopped := List.head?_dropWhile_not (· != terminator) text
      simpa [dropped] using stopped
    cases taken
    rw [isTerminator] at dropped
    rw [← dropped, List.takeWhile_append_dropWhile]
  next => cases taken

theorem ofCode?_eq_some {character : Char} {type : BaseType} :
    BaseType.ofCode? character = some type ↔ character = type.code := by
  constructor
  · intro isType
    unfold BaseType.ofCode? at isType
    repeat' split at isType
    all_goals cases isType
    all_goals assumption
  · rintro rfl
    cases type <;> rfl

theorem reads_base : Reads readBase BaseType.characters where
  takes := by
    intro type rest
    have isType : BaseType.ofCode? type.code = some type := ofCode?_eq_some.mpr rfl
    simp [readBase, BaseType.characters, isType]
  only := by
    intro text type rest read
    unfold readBase at read
    split at read
    · cases read
    next character following =>
      split at read
      next other isOther =>
        cases read
        rw [ofCode?_eq_some.mp isOther]
        rfl
      next => cases read

theorem reads_binary : Reads readBinary BinaryName.characters where
  takes := by
    intro name rest
    have taken := takeUntil_append name.semicolon_not_mem rest
    simp [readBinary, BinaryName.characters, taken, bind, Except.bind, name.ofString_text]
  only := by
    intro text name rest read
    obtain ⟨⟨_, named⟩, first, read⟩ := bind_eq_ok.mp read
    obtain ⟨⟨characters, following⟩, taken, read⟩ := bind_eq_ok.mp read
    dsimp only at read
    split at read
    next found isName =>
      cases read
      rw [eq_of_expect first, eq_of_takeUntil taken]
      simp [BinaryName.characters, BinaryName.text_of_ofString isName]
    next => cases read

/-! ## References and fields -/

theorem code_ne_bracket (type : BaseType) : type.code ≠ '[' := by
  cases type <;> decide

theorem code_ne_class (type : BaseType) : type.code ≠ 'L' := by
  cases type <;> decide

theorem characters_ofDimensions (element : BinaryName) (dimensions : Nat) :
    (RefType.ofDimensions element dimensions).characters =
      List.replicate dimensions '[' ++ element.characters := by
  cases dimensions <;> rfl

/-- Behind its brackets, a reference is a class, or a base type if there are brackets. -/
theorem readRef_brackets (dimensions : Nat) {text : List Char}
    (plain : text.head? ≠ some '[') :
    readRef (List.replicate dimensions '[' ++ text) =
      if text.head? = some 'L' then
        readBinary text >>= fun read => pure (.ofDimensions read.1 dimensions, read.2)
      else if dimensions = 0 then .error (.missed .referenceType text)
      else
        readBase text >>= fun read =>
          pure (.primitiveArray (dimensions - 1) read.1, read.2) := by
  have ⟨taken, dropped⟩ := @span_append (· == '[') (List.replicate dimensions '[') text
    (by simp) (by
      intro character isFirst
      rw [beq_eq_false_iff_ne]
      intro isBracket
      exact plain (isBracket ▸ isFirst))
  unfold readRef
  rw [taken, dropped, List.length_replicate]
  cases dimensions <;> rfl

theorem exists_brackets (text : List Char) :
    ∃ dimensions rest, text = List.replicate dimensions '[' ++ rest ∧
      rest.head? ≠ some '[' := by
  induction text with
  | nil => exact ⟨0, [], rfl, nofun⟩
  | cons character following ih =>
      by_cases isBracket : character = '['
      · rcases ih with ⟨dimensions, rest, rfl, plain⟩
        exact ⟨dimensions + 1, rest, by rw [isBracket]; rfl, plain⟩
      · exact ⟨0, character :: following, rfl, by simpa using isBracket⟩

theorem reads_ref : Reads readRef RefType.characters where
  takes := by
    have classes (element : BinaryName) (dimensions : Nat) (rest : List Char) :
        readRef ((RefType.ofDimensions element dimensions).characters ++ rest) =
          .ok (.ofDimensions element dimensions, rest) := by
      rw [characters_ofDimensions, List.append_assoc,
        readRef_brackets dimensions (by simp [BinaryName.characters]),
        if_pos (by simp [BinaryName.characters]), reads_binary.takes]
      rfl
    intro type rest
    cases type with
    | object name => exact classes name 0 rest
    | objectArray extra element => exact classes element (extra + 1) rest
    | primitiveArray extra element =>
        rw [RefType.characters, List.append_assoc,
          readRef_brackets (extra + 1) (by simp [BaseType.characters, code_ne_bracket]),
          if_neg (by simp [BaseType.characters, code_ne_class]),
            if_neg (Nat.succ_ne_zero extra),
          reads_base.takes]
        rfl
  only := by
    intro text type rest read
    rcases exists_brackets text with ⟨dimensions, behind, rfl, plain⟩
    rw [readRef_brackets dimensions plain] at read
    split at read
    next =>
      rcases bind_eq_ok.mp read with ⟨⟨element, following⟩, named, isRead⟩
      cases isRead
      rw [characters_ofDimensions, reads_binary.only named, List.append_assoc]
    next =>
      split at read
      next => cases read
      next isArray =>
        rcases bind_eq_ok.mp read with ⟨⟨element, following⟩, based, isRead⟩
        cases isRead
        rw [RefType.characters, Nat.sub_add_cancel (Nat.pos_of_ne_zero isArray),
          reads_base.only based, List.append_assoc]

theorem head?_characters (type : RefType) (rest : List Char) :
    (type.characters ++ rest).head? = some 'L' ∨
    (type.characters ++ rest).head? = some '[' := by
  cases type <;> simp [RefType.characters, BinaryName.characters, List.replicate_succ]

theorem reads_field : Reads readField FieldType.characters where
  takes := by
    intro type rest
    cases type with
    | base type =>
        have isBase : ¬((type.characters ++ rest).head? = some 'L' ∨
            (type.characters ++ rest).head? = some '[') := by
          simp [BaseType.characters, code_ne_class, code_ne_bracket]
        rw [FieldType.characters, readField, if_neg isBase, reads_base.takes]
        rfl
    | ref type =>
        rw [FieldType.characters, readField, if_pos (head?_characters type rest),
          reads_ref.takes]
        rfl
  only := by
    intro text type rest read
    unfold readField at read
    split at read
    · rcases bind_eq_ok.mp read with ⟨⟨found, following⟩, taken, isRead⟩
      cases isRead
      exact reads_ref.only taken
    · rcases bind_eq_ok.mp read with ⟨⟨found, following⟩, taken, isRead⟩
      cases isRead
      exact reads_base.only taken

/-! ## Methods -/

theorem characters_ne_nil (type : FieldType) : type.characters ≠ [] := by
  intro isEmpty
  have short := length_lt_of_readField (reads_field.takes type [])
  simp [isEmpty] at short

/-- Neither a parameter list nor a method without result is taken for a field. -/
theorem head?_field {type : FieldType} {first : Char} {rest following : List Char}
    (same : type.characters ++ rest = first :: following) :
    first ≠ ')' ∧ first ≠ 'V' := by
  cases type with
  | base type =>
      cases same
      cases type <;> decide
  | ref type =>
      have isFirst := head?_characters type rest
      rw [FieldType.characters] at same
      rw [same] at isFirst
      rcases isFirst with isClass | isArray
      · cases isClass
        decide
      · cases isArray
        decide

theorem readParameters_append (types : List FieldType) (rest : List Char) :
    readParameters (types.flatMap FieldType.characters ++ ')' :: rest) =
      .ok (types, ')' :: rest) := by
  induction types with
  | nil =>
      unfold readParameters
      rfl
  | cons type types ih =>
      have read :=
        reads_field.takes type (types.flatMap FieldType.characters ++ ')' :: rest)
      rw [List.flatMap_cons, List.append_assoc]
      generalize text_eq : type.characters ++ _ = text at read ⊢
      cases text with
      | nil => simp [characters_ne_nil] at text_eq
      | cons first following =>
          unfold readParameters
          rw [if_neg (head?_field text_eq).1]
          split
          next stop failed => cases read.symm.trans failed
          next found remaining readFirst =>
            cases read.symm.trans readFirst
            rw [ih]

theorem eq_of_readParameters {text rest : List Char} {types : List FieldType}
    (read : readParameters text = .ok (types, rest)) :
    text = types.flatMap FieldType.characters ++ rest := by
  fun_induction readParameters text generalizing types rest with
  | case1 => cases read
  | case2 following =>
      cases read
      rfl
  | case3 character following _ stop failed => cases read
  | case4 character following _ type remaining taken _ stop failed ih => cases read
  | case5 character following _ type remaining taken _ others last readOthers ih =>
      cases read
      rw [reads_field.only taken, ih readOthers]
      simp

theorem reads_result : Reads readResult fun result =>
    (result.map FieldType.characters).getD ['V'] where
  takes := by
    intro result rest
    cases result with
    | none => rfl
    | some type =>
        have read := reads_field.takes type rest
        simp only [Option.map_some, Option.getD_some]
        generalize text_eq : type.characters ++ rest = text at read ⊢
        unfold readResult
        split
        next => exact absurd rfl (head?_field text_eq).2
        next =>
          rw [read]
          rfl
  only := by
    intro text result rest read
    unfold readResult at read
    split at read
    · cases read
      rfl
    · rcases bind_eq_ok.mp read with ⟨⟨type, following⟩, taken, isRead⟩
      cases isRead
      exact reads_field.only taken

theorem reads_method : Reads readMethod MethodDescriptor.characters where
  takes := by
    intro descriptor rest
    have parameters := readParameters_append descriptor.parameters
      ((descriptor.result.map FieldType.characters).getD ['V'] ++ rest)
    have result := reads_result.takes descriptor.result rest
    simp [readMethod, MethodDescriptor.characters, parameters, result, bind,
      Except.bind, pure, Except.pure]
  only := by
    intro text descriptor rest read
    rcases bind_eq_ok.mp read with ⟨⟨_, inside⟩, opened, read⟩
    rcases bind_eq_ok.mp read with ⟨⟨parameters, closing⟩, listed, read⟩
    rcases bind_eq_ok.mp read with ⟨⟨_, behind⟩, closed, read⟩
    rcases bind_eq_ok.mp read with ⟨⟨result, following⟩, resulted, isRead⟩
    cases isRead
    rw [eq_of_expect opened, eq_of_readParameters listed, eq_of_expect closed,
      reads_result.only resulted]
    simp [MethodDescriptor.characters]

/-! ## Whole texts -/

theorem Reads.readAll_eq_ok {α : Type} {reader : Reader α} {characters : α → List Char}
    (reads : Reads reader characters) {source : String} {value : α} :
    readAll reader source = .ok value ↔ source = String.ofList (characters value) := by
  constructor
  · intro read
    unfold readAll at read
    split at read
    next found taken =>
      cases read
      rw [← String.toList_inj, String.toList_ofList, reads.only taken, List.append_nil]
    next => cases read
    next => cases read
  · intro isWritten
    have taken := reads.takes value []
    rw [List.append_nil] at taken
    rw [isWritten, readAll, String.toList_ofList, taken]

/-- A text is read as a value if and only if it is the descriptor of that value, for every
kind of descriptor. -/
theorem parse_inverts_render (source : String) :
    (∀ type, BaseType.parse source = .ok type ↔ source = type.render) ∧
      (∀ name, BinaryName.parse source = .ok name ↔ source = name.render) ∧
      (∀ type, RefType.parse source = .ok type ↔ source = type.render) ∧
      (∀ type, FieldType.parse source = .ok type ↔ source = type.render) ∧
      ∀ descriptor, MethodDescriptor.parse source = .ok descriptor ↔
        source = descriptor.render :=
  ⟨fun _ => reads_base.readAll_eq_ok, fun _ => reads_binary.readAll_eq_ok,
    fun _ => reads_ref.readAll_eq_ok, fun _ => reads_field.readAll_eq_ok,
    fun _ => reads_method.readAll_eq_ok⟩

end Descriptor

end LocalTable
