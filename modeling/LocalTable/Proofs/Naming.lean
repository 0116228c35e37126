import Mathlib.Data.List.Forall2
import Mathlib.Data.Option.Basic
import LocalTable.Naming
import LocalTable.Proofs.Edit

/-!
# Names of variables

Whatever is made up as a name is one: letters, parts of class names and underscores hold
no delimiter.  So naming the variables of a table does not fail, and it changes nothing
but the names of the entries and the recorded names of the parameters.
-/

namespace LocalTable

/-! ## Characters -/

theorem isDelimiter_of_lt {character : Char} (beyond : 0x5b < character.toNat) :
    isDelimiter character = false := by
  unfold isDelimiter
  simp only [Bool.or_eq_false_iff, beq_eq_false_iff_ne]
  refine ⟨⟨⟨?_, ?_⟩, ?_⟩, ?_⟩ <;>
    · rintro rfl
      exact absurd beyond (by decide)

theorem isDelimiter_of_isLower {letter : Char} (lower : letter.isLower = true) :
    isDelimiter letter = false := by
  have ⟨least, _⟩ := Bool.and_eq_true_iff.mp lower
  exact isDelimiter_of_lt (Nat.lt_of_lt_of_le (by decide) (of_decide_eq_true least))

/-- A number stands for the character of this code point, or for none. -/
theorem ofNat_eq_zero_or (point : Nat) :
    Char.ofNat point = '\x00' ∨ (Char.ofNat point).toNat = point := by
  by_cases valid : point.isValidChar
  · have isPoint : Char.ofNat point = Char.ofNatAux point valid := dif_pos valid
    rw [isPoint]
    exact .inr rfl
  · exact .inl (dif_neg valid)

theorem isDelimiter_ofNat {point : Nat} (beyond : 0x5b < point) :
    isDelimiter (Char.ofNat point) = false := by
  rcases ofNat_eq_zero_or point with isZero | isPoint
  · rw [isZero]
    rfl
  · apply isDelimiter_of_lt
    rw [isPoint]
    exact beyond

/-- Lower case is one letter with a dot above, or a character beyond the capital
letters, or what was there before. -/
theorem Text.lowerCase_cases (character : Char) :
    lowerCase character = ['i', Char.ofNat 0x307] ∨
      (∃ point, 0x61 ≤ point ∧ lowerCase character = [Char.ofNat point]) ∨
      lowerCase character = [character] := by
  have shifted : ∀ run ∈ caseRuns, 0x61 ≤ (run.first : Int) + run.shift := by
    decide +kernel
  unfold lowerCase
  split
  · exact .inl rfl
  · split
    next run found =>
      have bound := shifted run (List.mem_of_find?_eq_some found)
      have holds := List.find?_some found
      simp only [CaseRun.holds, Bool.and_eq_true, decide_eq_true_eq] at holds
      exact .inr (.inl ⟨_, by omega, rfl⟩)
    next => exact .inr (.inr rfl)

/-- Lower case has no delimiters but those that were there before. -/
theorem Text.isSegment_lowerCase {character : Char}
    (plain : isDelimiter character = false) :
    IsSegment (lowerCase character) := by
  rcases lowerCase_cases character with isDotted | ⟨point, bound, isPoint⟩ | isSame
  · rw [isDotted]
    decide
  · rw [isPoint]
    refine ⟨List.cons_ne_nil _ _, fun lower member => ?_⟩
    rw [List.mem_singleton.mp member]
    exact isDelimiter_ofNat (by omega)
  · rw [isSame]
    refine ⟨List.cons_ne_nil _ _, fun lower member => ?_⟩
    rw [List.mem_singleton.mp member]
    exact plain

theorem IsSegment.append {left right : List Char} (isSegment : IsSegment left)
    (plain : ∀ character ∈ right, isDelimiter character = false) :
    IsSegment (left ++ right) := by
  refine ⟨by simp [isSegment.1], fun character member => ?_⟩
  rcases List.mem_append.mp member with inLeft | inRight
  · exact isSegment.2 character inLeft
  · exact plain character inRight

theorem UnqualifiedName.ofString_of_isSegment {text : String}
    (valid : IsSegment text.toList) :
    ofString text = .ok ⟨text, valid⟩ := by
  unfold ofString
  split
  next fault isFault =>
    rw [segmentFault?_eq_none.mpr valid] at isFault
    cases isFault
  next => rfl

namespace Naming

/-! ## Counted names -/

namespace Odometer

/-- The odometer shows lower-case letters. -/
structure Lettered (odometer : Odometer) : Prop where
  start : odometer.start.isLower = true
  nonempty : odometer.wheels ≠ []
  wheels : ∀ letter ∈ odometer.wheels, letter.isLower = true

theorem isLower_nextLetter {letter : Char} (lower : letter.isLower = true) :
    (nextLetter letter).isLower = true := by
  have all : ∀ point < 123, 97 ≤ point →
      (nextLetter (Char.ofNat point)).isLower = true := by decide
  have ⟨least, most⟩ := Bool.and_eq_true_iff.mp lower
  rw [← Char.ofNat_toNat letter]
  exact all letter.toNat (Nat.lt_succ_of_le (of_decide_eq_true most))
    (of_decide_eq_true least)

theorem turn_ne_nil (start : Char) (wheels : List Char) : turn start wheels ≠ [] := by
  cases wheels with
  | nil => exact List.cons_ne_nil _ _
  | cons letter rest =>
      unfold turn
      split <;> exact List.cons_ne_nil _ _

theorem isLower_of_mem_turn {start letter : Char} {wheels : List Char}
    (isStart : start.isLower = true) (lower : ∀ letter ∈ wheels, letter.isLower = true)
    (member : letter ∈ turn start wheels) : letter.isLower = true := by
  induction wheels with
  | nil =>
      rw [List.mem_singleton.mp member]
      exact isStart
  | cons first rest ih =>
      have ⟨isFirst, others⟩ := List.forall_mem_cons.mp lower
      unfold turn at member
      split at member
      · rcases List.mem_cons.mp member with rfl | member
        · exact isStart
        · exact ih others member
      · rcases List.mem_cons.mp member with rfl | member
        · exact isLower_nextLetter isFirst
        · exact others letter member

theorem lettered_ofStart {start : Char} (lower : start.isLower = true) :
    (ofStart start).Lettered :=
  ⟨lower, List.cons_ne_nil _ _, fun _ member => List.mem_singleton.mp member ▸ lower⟩

theorem Lettered.advance {odometer : Odometer} (lettered : odometer.Lettered) :
    odometer.advance.Lettered :=
  ⟨lettered.start, turn_ne_nil _ _, fun _ =>
    isLower_of_mem_turn lettered.start lettered.wheels⟩

theorem Lettered.isSegment {odometer : Odometer} (lettered : odometer.Lettered) :
    IsSegment odometer.name.toList := by
  rw [name, String.toList_ofList]
  refine ⟨by simpa using lettered.nonempty, fun letter member => ?_⟩
  exact isDelimiter_of_isLower (lettered.wheels letter (List.mem_reverse.mp member))

end Odometer

/-- All odometers in use show lower-case letters. -/
def Odometers.Lettered (odometers : Odometers) : Prop :=
  ∀ pair ∈ odometers, pair.2.Lettered

variable {odometers : Odometers}

theorem isLower_start (counted : Counted) : counted.start.isLower = true := by
  cases counted with
  | number type | array type => cases type <;> decide

/-- The odometer that counts the next name of a type through. -/
theorem lettered_lookup (lettered : odometers.Lettered) (counted : Counted) :
    ((odometers.lookup counted).getD (.ofStart counted.start)).Lettered := by
  cases found : odometers.lookup counted with
  | none => exact Odometer.lettered_ofStart (isLower_start counted)
  | some odometer =>
      obtain ⟨earlier, later, rfl, _⟩ := List.lookup_eq_some_iff.mp found
      exact lettered (counted, odometer) (by simp)

/-- The next name of a counted type is a name. -/
theorem isSegment_count (lettered : odometers.Lettered) (counted : Counted) :
    IsSegment (count odometers counted).1.toList ∧
    (count odometers counted).2.Lettered := by
  have isLettered := lettered_lookup lettered counted
  refine ⟨isLettered.isSegment, fun pair member => ?_⟩
  rcases List.mem_cons.mp member with rfl | member
  · exact isLettered.advance
  · exact lettered pair (List.mem_of_mem_filter member)

/-! ## Names after classes -/

theorem mem_of_mem_pieces {separator character : Char} {text piece : List Char}
    (isPiece : piece ∈ pieces separator text) (member : character ∈ piece) :
    character ∈ text := by
  induction text generalizing piece with
  | nil =>
      rw [List.mem_singleton.mp isPiece] at member
      cases member
  | cons first rest ih =>
      unfold pieces at isPiece
      split at isPiece
      · rcases List.mem_cons.mp isPiece with rfl | isPiece
        · cases member
        · exact List.mem_cons_of_mem _ (ih isPiece member)
      · split at isPiece
        next =>
          rw [List.mem_singleton.mp isPiece, List.mem_singleton] at member
          exact member ▸ List.mem_cons_self ..
        next following others split_eq =>
          rcases List.mem_cons.mp isPiece with rfl | isPiece
          · rcases List.mem_cons.mp member with rfl | member
            · exact List.mem_cons_self ..
            · exact List.mem_cons_of_mem _ (ih (split_eq ▸ List.mem_cons_self ..) member)
          · exact List.mem_cons_of_mem _
              (ih (split_eq ▸ List.mem_cons_of_mem _ isPiece) member)

theorem isDelimiter_of_mem_unqualifiedPart {name : BinaryName} {character : Char}
    (member : character ∈ name.unqualifiedPart) : isDelimiter character = false := by
  unfold BinaryName.unqualifiedPart at member
  cases parts : segments name.text.toList with
  | nil =>
      rw [parts] at member
      cases member
  | cons first rest =>
      rw [parts, List.getLastD_cons] at member
      exact (name.valid _ (parts ▸ List.getLastD_mem_cons)).2 character member

theorem isDelimiter_of_mem_simpleName {name : BinaryName} {character : Char}
    (member : character ∈ simpleName name) : isDelimiter character = false := by
  unfold simpleName at member
  split at member
  · cases member
  next outermost nested parts =>
    have plain {piece : List Char} (isPiece : piece ∈ outermost :: nested)
        (inPiece : character ∈ piece) : isDelimiter character = false :=
      isDelimiter_of_mem_unqualifiedPart (mem_of_mem_pieces (parts ▸ isPiece) inPiece)
    dsimp only at member
    cases found : (nested.map (·.dropWhile Char.isDigit)).reverse.find? fun piece =>
        !piece.isEmpty with
    | none =>
        rw [found] at member
        exact plain (List.mem_cons_self ..) member
    | some piece =>
        rw [found] at member
        obtain ⟨whole, inNested, rfl⟩ :=
          List.mem_map.mp (List.mem_reverse.mp (List.mem_of_find?_eq_some found))
        exact plain (List.mem_cons_of_mem _ inNested)
          ((List.dropWhile_sublist _).mem member)

theorem isSegment_objectName (name : BinaryName) :
    IsSegment (objectName name).toList := by
  unfold objectName
  split
  · decide
  next first rest parts =>
    rw [String.toList_ofList]
    have plain {character : Char} (member : character ∈ first :: rest) :
        isDelimiter character = false :=
      isDelimiter_of_mem_simpleName (parts ▸ member)
    exact (Text.isSegment_lowerCase (plain (List.mem_cons_self ..))).append
      fun character member => plain (List.mem_cons_of_mem _ member)

/-! ## Names after types -/

theorem isSegment_plural {name : String} (isSegment : IsSegment name.toList) :
    IsSegment (name ++ "s").toList := by
  rw [String.toList_append]
  exact isSegment.append (by decide : IsSegment "s".toList).2

theorem isSegment_typeName (lettered : odometers.Lettered) (type : FieldType) :
    IsSegment (typeName odometers type).1.toList ∧
    (typeName odometers type).2.Lettered := by
  unfold typeName
  split
  · exact ⟨(by decide : IsSegment "bl".toList), lettered⟩
  · exact isSegment_count lettered _
  · exact ⟨isSegment_objectName _, lettered⟩
  · exact ⟨isSegment_plural (isSegment_objectName _), lettered⟩
  · exact ⟨(by decide : IsSegment "bls".toList), lettered⟩
  · have counted := isSegment_count lettered (.array ‹_›)
    exact ⟨isSegment_plural counted.1, counted.2⟩

theorem isSegment_unreserved {name : String} (isSegment : IsSegment name.toList) :
    IsSegment (unreserved name).toList := by
  fun_induction unreserved name with
  | case1 name _ _ ih =>
      refine ih ?_
      rw [String.toList_append]
      exact isSegment.append (by decide : IsSegment "_".toList).2
  | case2 => exact isSegment

theorem isSegment_generate (lettered : odometers.Lettered) (type : FieldType) :
    IsSegment (generate odometers type).1.toList ∧ (generate odometers type).2.Lettered :=
  (isSegment_typeName lettered type).imp_left isSegment_unreserved

end Naming

/-! ## Choosing names -/

namespace Method

variable {method : Method} {settings : Settings} {improve : Bool} {entries : List Entry}
  {odometers : Naming.Odometers}

theorem exists_chooseName (lettered : odometers.Lettered) (entry : Entry) (index : Nat) :
    ∃ choice later, method.chooseName settings improve entries odometers entry index =
      .ok (choice, later) ∧ later.Lettered := by
  unfold chooseName
  dsimp only
  split
  · exact ⟨_, _, rfl, lettered⟩
  · split
    · exact ⟨_, _, rfl, lettered⟩
    · split
      · exact ⟨_, _, rfl, lettered⟩
      · split
        · obtain ⟨isSegment, later⟩ := Naming.isSegment_generate lettered entry.type
          rw [UnqualifiedName.ofString_of_isSegment isSegment]
          exact ⟨_, _, rfl, later⟩
        · exact ⟨_, _, rfl, lettered⟩

/-- What holds of every single choice holds of all choices in a row, if the odometers
stay in order. -/
theorem exists_forall₂_chooseNames (P : Entry × Nat → Naming.Choice → Prop)
    (each : ∀ (odometers : Naming.Odometers) (entry : Entry) (index : Nat),
      odometers.Lettered →
      ∃ choice later, method.chooseName settings improve entries odometers entry index =
        .ok (choice, later) ∧ later.Lettered ∧ P (entry, index) choice)
    (lettered : odometers.Lettered) (numbered : List (Entry × Nat)) :
    ∃ choices, method.chooseNames settings improve entries odometers
      numbered = .ok choices ∧
      List.Forall₂ P numbered choices := by
  induction numbered generalizing odometers with
  | nil => exact ⟨[], rfl, .nil⟩
  | cons first rest ih =>
      obtain ⟨entry, index⟩ := first
      obtain ⟨choice, later, chosen, laterLettered, holds⟩ :=
        each odometers entry index lettered
      obtain ⟨choices, others, hold⟩ := ih laterLettered
      refine ⟨choice :: choices, ?_, .cons holds hold⟩
      exact bind_eq_ok.mpr ⟨_, chosen, bind_eq_ok.mpr ⟨_, others, rfl⟩⟩

/-- Choosing names never fails. -/
theorem exists_chooseNames (lettered : odometers.Lettered)
    (numbered : List (Entry × Nat)) :
    ∃ choices, method.chooseNames settings improve entries odometers numbered =
      .ok choices := by
  obtain ⟨choices, chosen, _⟩ := exists_forall₂_chooseNames (fun _ _ => True)
    (fun odometers entry index lettered => by
      simpa using @exists_chooseName method settings improve entries odometers
        lettered entry index)
    lettered numbered
  exact ⟨choices, chosen⟩

/-- The name of an entry when no names are to be made up. -/
def keptName (method : Method) (entry : Entry) : UnqualifiedName :=
  if !method.isStatic && entry.slot = 0 then .this else entry.name

/-- Only a receiver with another name than `this` loses it. -/
theorem keptName_eq {entry : Entry}
    (isKept : method.isStatic = true ∨ entry.slot ≠ 0 ∨ entry.name = .this) :
    method.keptName entry = entry.name := by
  unfold keptName
  split
  next isReceiver =>
    rw [Bool.and_eq_true, Bool.not_eq_true', decide_eq_true_eq] at isReceiver
    rcases isKept with isStatic | notFirst | isThis
    · rw [isReceiver.1] at isStatic
      cases isStatic
    · exact absurd isReceiver.2 notFirst
    · exact isThis.symm
  next => rfl

theorem chooseName_of_plain (plain : settings.obfuscateNames = false) (entry : Entry)
    (index : Nat) :
    ∃ isFixed, method.chooseName settings false entries odometers entry index =
      .ok (⟨method.keptName entry, isFixed⟩, odometers) := by
  have unrecorded : method.usesRecorded settings false = false := rfl
  unfold chooseName keptName
  rw [unrecorded, plain]
  cases receiver : !method.isStatic && decide (entry.slot = 0) with
  | true => exact ⟨true, rfl⟩
  | false => exact ⟨false, rfl⟩

/-- Without `improve`, no names are made up. -/
theorem chooseNames_of_plain (plain : settings.obfuscateNames = false)
    (numbered : List (Entry × Nat)) :
    ∃ choices, method.chooseNames settings false entries odometers
      numbered = .ok choices ∧
      choices.map Naming.Choice.name = numbered.map fun pair =>
        method.keptName pair.1 := by
  induction numbered with
  | nil => exact ⟨[], rfl, rfl⟩
  | cons first rest ih =>
      obtain ⟨entry, index⟩ := first
      obtain ⟨isFixed, chosen⟩ :=
        @chooseName_of_plain method settings entries odometers plain entry index
      obtain ⟨choices, others, names_eq⟩ := ih
      refine ⟨⟨method.keptName entry, isFixed⟩ :: choices, ?_, congrArg (_ :: ·) names_eq⟩
      exact bind_eq_ok.mpr ⟨_, chosen, bind_eq_ok.mpr ⟨_, others, rfl⟩⟩

/-! ## Writing names -/

theorem rel_mono {α : Type} {R S : α → α → Prop} {left right : Option α}
    (related : Option.Rel R left right)
    (weaker : ∀ left right, R left right → S left right) :
    Option.Rel S left right := by
  cases related with
  | some holds => exact .some (weaker _ _ holds)
  | none => exact .none

/-- The recorded names of the parameters in some slots follow a table: a parameter that
has an entry in its slot has the name of the first one, and any other parameter keeps
the name that it had. -/
structure RecordsTable (slots : List Nat) (table : List Entry)
    (before after : List (Option UnqualifiedName)) : Prop where
  length_eq : after.length = before.length
  named : ∀ {index slot : Nat} {entry : Entry}, index < before.length →
    slots[index]? = some slot →
    table.find? (fun entry => entry.slot = slot) = some entry →
    after[index]? = some (some entry.name)
  kept : ∀ {index : Nat},
    (∀ slot, slots[index]? = some slot → ∀ entry ∈ table, entry.slot ≠ slot) →
    after[index]? = before[index]?

theorem recordsTable_recordNames (method : Method) (table : List Entry) :
    Option.Rel (RecordsTable method.parameterSlots table) method.parameterNames
      (method.recordNames table).parameterNames := by
  unfold recordNames
  cases method.parameterNames with
  | none => exact .none
  | some names =>
      refine .some ⟨List.length_mapIdx,
        fun {index slot entry} inBounds isSlot found => ?_, fun {index} unnamed => ?_⟩
      · rw [List.getElem?_mapIdx, List.getElem?_eq_getElem inBounds,
          Option.map_some, isSlot]
        dsimp only
        rw [found]
        rfl
      · rw [List.getElem?_mapIdx]
        cases names[index]? with
        | none => rfl
        | some recorded =>
            rw [Option.map_some]
            cases isSlot : method.parameterSlots[index]? with
            | none => rfl
            | some slot =>
                have missing : table.find? (fun entry => entry.slot = slot) = none :=
                  List.find?_eq_none.mpr fun entry member => by
                    simpa using unnamed slot isSlot entry member
                dsimp only
                rw [missing]
                rfl

/-- Nothing of the method differs but its table and names. -/
structure Retables (before after : Method) : Prop where
  rest :
    after = { before with code := after.code, parameterNames := after.parameterNames }
  code : Option.Rel (fun old new => new = { old with table := new.table })
    before.code after.code
  recorded : Option.Rel (fun old new => new.length = old.length) before.parameterNames
    after.parameterNames

theorem retables_withNames {code : Code} (hasCode : method.code = some code)
    (names : List UnqualifiedName) :
    method.Retables (method.withNames code entries names) := by
  refine ⟨rfl, ?_, ?_⟩
  · rw [hasCode]
    exact .some rfl
  · exact rel_mono (recordsTable_recordNames _ _) fun _ _ records => records.length_eq

end Method

/-- Where no names collide, nothing is appended to them. -/
theorem Naming.disambiguate_of_collisions {choices : List Naming.Choice}
    (distinct : (Naming.collisions choices).isEmpty = true) :
    Naming.disambiguate choices = choices.map Naming.Choice.name := by
  have none := List.isEmpty_iff.mp distinct
  simp only [disambiguate, none, List.contains_nil, Bool.and_false,
    Bool.false_eq_true, if_false]
  rw [← Function.comp_def Choice.name Prod.fst, ← List.map_map, List.zipIdx_map_fst]

/-- The names that are written when these have been chosen. -/
def Naming.writtenNames (settings : Settings) (improve : Bool)
    (choices : List Naming.Choice) :
    List UnqualifiedName :=
  if improve && !settings.obfuscateNames then Naming.disambiguate choices
  else choices.map Naming.Choice.name

/-- Once names are chosen, they are written, and told apart if they were made up. -/
theorem Edit.nameVariables_writes {hierarchy : Hierarchy} {method : Method}
    {settings : Settings} {improve : Bool} {code : Code} {entries : List Entry}
    {choices : List Naming.Choice} (hasCode : method.code = some code)
    (hasTable : code.table = some entries)
    (chosen : method.chooseNames settings improve entries [] entries.zipIdx =
      .ok choices) :
    (Edit.nameVariables settings improve : Edit hierarchy Unit).Yields method (.ok ())
      (method.withNames code entries (Naming.writtenNames settings improve choices)) := by
  have answered :
      (.ofExcept (method.chooseNames settings improve entries [] entries.zipIdx) :
      Query hierarchy _).eval = .ok choices := (Query.eval_ofExcept _).trans chosen
  refine yields_get.bind ?_
  rw [hasCode]
  dsimp only
  rw [hasTable]
  refine (yields_ask_of_eval answered).bind ?_
  unfold Naming.writtenNames
  cases improve && !settings.obfuscateNames with
  | false => exact yields_set
  | true =>
      cases distinct : (Naming.collisions choices).isEmpty with
      | false => exact (yields_tell _).bind yields_set
      | true =>
          rw [if_pos rfl, Naming.disambiguate_of_collisions distinct]
          exact yields_set

/-- Once names are chosen, they are written. -/
theorem Edit.nameVariables_yields {hierarchy : Hierarchy} {method : Method}
    {settings : Settings} {improve : Bool} {code : Code} {entries : List Entry}
    {choices : List Naming.Choice} (hasCode : method.code = some code)
    (hasTable : code.table = some entries)
    (chosen : method.chooseNames settings improve entries [] entries.zipIdx =
      .ok choices) :
    ∃ names, (improve = false → names = choices.map Naming.Choice.name) ∧
      (Edit.nameVariables settings improve : Edit hierarchy Unit).Yields method (.ok ())
        (method.withNames code entries names) := by
  refine ⟨_, ?_, nameVariables_writes hasCode hasTable chosen⟩
  rintro rfl
  rfl

end LocalTable
