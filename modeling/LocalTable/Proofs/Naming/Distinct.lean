import Mathlib.Data.List.NodupEquivFin
import LocalTable.Proofs.Naming

/-!
# Distinct names

Names that are made up for the entries of a table may collide, and those that do get the
index of their entry as a suffix.  The suffix tells them apart, and it tells them from
the names that did not collide, as long as no made-up name ends in a digit itself.  Only
a name after a class can do that: letters that are counted through, the plural of arrays
and the underscores behind reserved words do not.
-/

namespace LocalTable

/-! ## Texts that end in a digit -/

/-- Does the text end in a digit? -/
def endsInDigit (characters : List Char) : Bool :=
  characters.getLast?.any Char.isDigit

theorem endsInDigit_append {left right : List Char} (nonempty : right ≠ []) :
    endsInDigit (left ++ right) = endsInDigit right := by
  simp [endsInDigit, List.getLast?_append, List.getLast?_eq_some_getLast nonempty]

theorem endsInDigit_of_all {characters : List Char} (nonempty : characters ≠ [])
    (digits : ∀ character ∈ characters, character.isDigit = true) :
    endsInDigit characters = true := by
  simp [endsInDigit, List.getLast?_eq_some_getLast nonempty,
    digits _ (List.getLast_mem nonempty)]

/-- Behind texts that do not end in a digit, numbers can be told from the texts. -/
theorem append_digits_inj {left right first second : List Char}
    (leftPlain : endsInDigit left = false) (rightPlain : endsInDigit right = false)
    (firstDigits : ∀ character ∈ first, character.isDigit = true)
    (secondDigits : ∀ character ∈ second, character.isDigit = true)
    (same : left ++ first = right ++ second) : left = right ∧ first = second := by
  have noRest {short long rest : List Char} (plain : endsInDigit long = false)
      (digits : ∀ character ∈ rest, character.isDigit = true)
      (isLong : long = short ++ rest) :
      rest = [] := by
    by_contra nonempty
    rw [isLong, endsInDigit_append nonempty, endsInDigit_of_all nonempty digits] at plain
    cases plain
  rcases List.append_eq_append_iff.mp same with
    ⟨rest, isRight, isFirst⟩ | ⟨rest, isLeft, isSecond⟩
  · have isNil : rest = [] := by
      refine noRest rightPlain (fun character member => ?_) isRight
      exact firstDigits character (isFirst ▸ List.mem_append_left second member)
    simp [isRight, isFirst, isNil]
  · have isNil : rest = [] := by
      refine noRest leftPlain (fun character member => ?_) isLeft
      exact secondDigits character (isSecond ▸ List.mem_append_left first member)
    simp [isLeft, isSecond, isNil]

namespace UnqualifiedName

theorem isDigit_of_mem_toDigits {number : Nat} {character : Char}
    (member : character ∈ Nat.toDigits 10 number) : character.isDigit = true :=
  Nat.isDigit_of_mem_toDigits (by decide) (by decide) member

theorem toList_numbered (stem : UnqualifiedName) (number : Nat) :
    (stem.numbered number).text.toList = stem.text.toList ++ Nat.toDigits 10 number := by
  rw [numbered, String.toList_append, Nat.toList_repr]

theorem endsInDigit_numbered (stem : UnqualifiedName) (number : Nat) :
    endsInDigit (stem.numbered number).text.toList = true := by
  rw [toList_numbered, endsInDigit_append Nat.toDigits_ne_nil]
  exact endsInDigit_of_all Nat.toDigits_ne_nil fun _ => isDigit_of_mem_toDigits

theorem numbered_inj {stem other : UnqualifiedName} {number index : Nat}
    (plain : endsInDigit stem.text.toList = false)
    (otherPlain : endsInDigit other.text.toList = false)
    (same : stem.numbered number = other.numbered index) : number = index := by
  have texts := congrArg (·.text.toList) same
  simp only [toList_numbered] at texts
  have digits := (append_digits_inj plain otherPlain (fun _ => isDigit_of_mem_toDigits)
    (fun _ => isDigit_of_mem_toDigits) texts).2
  calc
    number = Nat.ofDigitChars 10 (Nat.toDigits 10 number) 0 :=
      Nat.ofDigitChars_ten_toDigits.symm
    _ = Nat.ofDigitChars 10 (Nat.toDigits 10 index) 0 := by rw [digits]
    _ = index := Nat.ofDigitChars_ten_toDigits

end UnqualifiedName

/-! ## Names after types -/

theorem isDigit_of_lt {character : Char} (beyond : 0x39 < character.toNat) :
    character.isDigit = false := by
  apply Bool.eq_false_iff.mpr
  intro isDigit
  have ⟨_, most⟩ := Bool.and_eq_true_iff.mp isDigit
  exact Nat.not_le_of_lt beyond (of_decide_eq_true most)

theorem isDigit_of_isLower {letter : Char} (lower : letter.isLower = true) :
    letter.isDigit = false := by
  have ⟨least, _⟩ := Bool.and_eq_true_iff.mp lower
  exact isDigit_of_lt (Nat.lt_of_lt_of_le (by decide) (of_decide_eq_true least))

/-- Lower case ends in a digit only if it is one. -/
theorem Text.isDigit_of_lowerCase {character : Char}
    (ends : endsInDigit (lowerCase character) = true) : character.isDigit = true := by
  rcases lowerCase_cases character with isDotted | ⟨point, bound, isPoint⟩ | isSame
  · rw [isDotted] at ends
    exact absurd ends (by decide)
  · rw [isPoint] at ends
    change (Char.ofNat point).isDigit = true at ends
    rcases ofNat_eq_zero_or point with isZero | isPoint
    · rw [isZero] at ends
      exact absurd ends (by decide)
    · rw [isDigit_of_lt (by omega)] at ends
      cases ends
  · rw [isSame] at ends
    exact ends

namespace Naming

variable {odometers : Odometers}

theorem Odometer.Lettered.endsInDigit {odometer : Odometer}
    (lettered : odometer.Lettered) :
    endsInDigit odometer.name.toList = false := by
  rw [name, String.toList_ofList, LocalTable.endsInDigit, List.getLast?_reverse]
  cases shown : odometer.wheels with
  | nil => rfl
  | cons letter rest =>
      exact isDigit_of_isLower (lettered.wheels letter (by simp [shown]))

theorem endsInDigit_count (lettered : odometers.Lettered) (counted : Counted) :
    endsInDigit (count odometers counted).1.toList = false :=
  (lettered_lookup lettered counted).endsInDigit

theorem endsInDigit_objectName {name : BinaryName}
    (ends : endsInDigit (objectName name).toList = true) :
    endsInDigit (simpleName name) = true := by
  unfold objectName at ends
  split at ends
  next => exact absurd ends (by decide)
  next first rest parts =>
    rw [String.toList_ofList] at ends
    rw [parts]
    cases rest with
    | nil =>
        rw [List.append_nil] at ends
        exact Text.isDigit_of_lowerCase ends
    | cons second others =>
        rw [endsInDigit_append (List.cons_ne_nil _ _)] at ends
        rw [← List.singleton_append, endsInDigit_append (List.cons_ne_nil _ _)]
        exact ends

theorem endsInDigit_plural (name : String) :
    endsInDigit (name ++ "s").toList = false := by
  rw [String.toList_append, endsInDigit_append (by decide)]
  decide

/-- Is it an object of a class whose simple name ends in a digit? -/
def isNumbered : FieldType → Bool
  | .ref (.object name) => endsInDigit (simpleName name)
  | _ => false

theorem isNumbered_of_typeName (lettered : odometers.Lettered) {type : FieldType}
    (ends : endsInDigit (typeName odometers type).1.toList = true) :
    isNumbered type = true := by
  unfold typeName at ends
  split at ends
  · dsimp only at ends
    exact absurd ends (by decide)
  · rw [endsInDigit_count lettered] at ends
    cases ends
  · exact endsInDigit_objectName ends
  · rw [endsInDigit_plural] at ends
    cases ends
  · dsimp only at ends
    exact absurd ends (by decide)
  · dsimp only at ends
    rw [endsInDigit_plural] at ends
    cases ends

/-- What is made longer by underscores does not end in a digit, unless it is as it was. -/
theorem endsInDigit_unreserved {name : String}
    (ends : endsInDigit (unreserved name).toList = true) :
    endsInDigit name.toList = true := by
  fun_induction unreserved name with
  | case1 name _ _ ih =>
      have longer := ih ends
      rw [String.toList_append, endsInDigit_append (by decide)] at longer
      exact absurd longer (by decide)
  | case2 => exact ends

theorem unreserved_not_mem (name : String) : unreserved name ∉ reservedWords := by
  fun_induction unreserved name with
  | case1 name _ _ ih => exact ih
  | case2 name notReserved => simpa using notReserved

end Naming

/-! ## Choosing names -/

namespace Method

variable {method : Method} {settings : Settings} {entries : List Entry}
  {odometers : Naming.Odometers} {entry : Entry} {choice : Naming.Choice}

/-- Is it the entry of the receiver? -/
def isReceiver (method : Method) (entry : Entry) : Bool :=
  !method.isStatic && entry.slot = 0

/-- Is the entry named after a class whose simple name ends in a digit? -/
def takesDigit (method : Method) (entry : Entry) : Bool :=
  !method.isReceiver entry && Naming.isNumbered entry.type

/-- What is chosen for an entry where names are made up.  The receiver has its own name.
Any other name is not reserved, and it ends in a digit only if it is taken from a
class. -/
inductive Chooses (method : Method) (entry : Entry) : Naming.Choice → Prop where
  | receiver (isReceiver : method.isReceiver entry = true) :
      Chooses method entry ⟨.this, true⟩
  | madeUp {name : UnqualifiedName} (isOther : method.isReceiver entry = false)
      (isFree : name.text ∉ Naming.reservedWords)
      (ends : endsInDigit name.text.toList = true → method.takesDigit entry = true) :
      Chooses method entry ⟨name, false⟩

/-- Where a name is made up, it may be told apart from others. -/
theorem Chooses.of_isReceiver (chooses : method.Chooses entry choice)
    (isOther : method.isReceiver entry = false) :
    choice.isFixed = false ∧
      (method.takesDigit entry = false →
        endsInDigit choice.name.text.toList = false) := by
  cases chooses with
  | receiver isReceiver =>
      rw [isReceiver] at isOther
      cases isOther
  | madeUp _ _ ends =>
      refine ⟨rfl, fun takesNone => Bool.eq_false_iff.mpr fun isDigit => ?_⟩
      rw [ends isDigit] at takesNone
      cases takesNone

/-- No name is recorded for any parameter. -/
def Unrecorded (method : Method) : Prop :=
  ∀ names, method.parameterNames = some names → ∀ name ∈ names, name = none

theorem recordedName?_eq_none (unrecorded : method.Unrecorded) (slot : Nat) :
    method.recordedName? slot = none := by
  unfold recordedName?
  cases method.parameterSlots.findIdx? (· = slot) with
  | none => rfl
  | some parameter =>
      cases recorded : method.parameterNames with
      | none => rfl
      | some names =>
          change names[parameter]?.bind id = none
          cases found : names[parameter]? with
          | none => rfl
          | some name => exact unrecorded names recorded name (List.mem_of_getElem? found)

theorem exists_chooses (unrecorded : method.Unrecorded)
    (plain : settings.obfuscateNames = false) (lettered : odometers.Lettered)
    (entry : Entry) (index : Nat) :
    ∃ choice later, method.chooseName settings true entries odometers entry index =
      .ok (choice, later) ∧ later.Lettered ∧ method.Chooses entry choice := by
  unfold chooseName
  rw [recordedName?_eq_none unrecorded, ite_self, plain]
  dsimp only
  cases isReceiver : !method.isStatic && decide (entry.slot = 0) with
  | true => exact ⟨_, _, rfl, lettered, .receiver isReceiver⟩
  | false =>
      obtain ⟨isSegment, later⟩ := Naming.isSegment_generate lettered entry.type
      simp only [Bool.false_eq_true, if_false, if_true]
      rw [UnqualifiedName.ofString_of_isSegment isSegment]
      refine ⟨_, _, rfl, later,
        .madeUp isReceiver (Naming.unreserved_not_mem _) fun ends => ?_⟩
      have isNumbered := Naming.isNumbered_of_typeName lettered
        (Naming.endsInDigit_unreserved ends)
      rw [takesDigit, Method.isReceiver, isReceiver, isNumbered]
      rfl

theorem exists_forall₂_chooses (unrecorded : method.Unrecorded)
    (plain : settings.obfuscateNames = false) (lettered : odometers.Lettered)
    (numbered : List (Entry × Nat)) :
    ∃ choices, method.chooseNames settings true entries odometers numbered = .ok choices ∧
      List.Forall₂ method.Chooses (numbered.map Prod.fst) choices := by
  obtain ⟨choices, chosen, each⟩ := exists_forall₂_chooseNames
    (fun numbered choice => method.Chooses numbered.1 choice)
    (fun odometers entry index lettered =>
      @exists_chooses method settings entries odometers unrecorded plain
        lettered entry index)
    lettered numbered
  exact ⟨choices, chosen, List.forall₂_map_left_iff.mpr each⟩

end Method

/-! ## Telling names apart -/

namespace Naming

variable {method : Method} {choices : List Choice} {choice : Choice}
  {entry : Entry} {index : Nat}

/-- The name of an entry in the end. -/
def toldApart (choices : List Choice) (choice : Choice) (index : Nat) : UnqualifiedName :=
  if !choice.isFixed && (collisions choices).contains
    choice.name then choice.name.numbered index
  else choice.name

theorem getElem?_disambiguate (choices : List Choice) (index : Nat) :
    (disambiguate choices)[index]? = choices[index]?.map (toldApart choices · index) := by
  simp [disambiguate, toldApart, List.getElem?_map, List.getElem?_zipIdx,
    Function.comp_def]

/-- A name that two entries have in common collides. -/
theorem mem_collisions {other : Choice} {first second : Nat} (different : first ≠ second)
    (isFirst : choices[first]? = some choice) (isSecond : choices[second]? = some other)
    (same : choice.name = other.name) : choice.name ∈ collisions choices := by
  have repeated {low high : Nat} (less : low < high)
      (isLow : (choices.map Choice.name)[low]? = some choice.name)
      (isHigh : (choices.map Choice.name)[high]? = some choice.name) :
      List.Duplicate choice.name (choices.map Choice.name) := by
    obtain ⟨lowBound, isLow⟩ := List.getElem?_eq_some_iff.mp isLow
    obtain ⟨highBound, isHigh⟩ := List.getElem?_eq_some_iff.mp isHigh
    exact List.duplicate_iff_exists_distinct_get.mpr
      ⟨⟨low, lowBound⟩, ⟨high, highBound⟩, less, isLow.symm, isHigh.symm⟩
  have atFirst : (choices.map Choice.name)[first]? = some choice.name := by simp [isFirst]
  have atSecond : (choices.map Choice.name)[second]? = some choice.name := by
    simp [isSecond, same]
  have twice : List.Duplicate choice.name (choices.map Choice.name) := by
    rcases Nat.lt_or_gt_of_ne different with less | more
    · exact repeated less atFirst atSecond
    · exact repeated more atSecond atFirst
  rw [collisions, List.mem_eraseDups, List.mem_filter]
  exact ⟨twice.mem, decide_eq_true (List.duplicate_iff_two_le_count.mp twice)⟩

theorem endsInDigit_this :
    endsInDigit UnqualifiedName.this.text.toList = false := by decide

/-- Nothing but the receiver has its name in the end. -/
theorem toldApart_eq_this (chooses : method.Chooses entry choice) :
    toldApart choices choice index = .this ↔ method.isReceiver entry = true := by
  cases chooses with
  | receiver isReceiver => exact ⟨fun _ => isReceiver, fun _ => rfl⟩
  | @madeUp name isOther isFree ends =>
      have isThis : (UnqualifiedName.this.text ∈ reservedWords) := by decide
      simp only [toldApart, isOther, Bool.false_eq_true, iff_false]
      split
      · intro same
        have ends := UnqualifiedName.endsInDigit_numbered name index
        rw [same, endsInDigit_this] at ends
        cases ends
      · rintro rfl
        exact isFree isThis

/-- Where no class gives it a digit, a name ends in a digit exactly if it had to be told
apart. -/
theorem endsInDigit_toldApart (chooses : method.Chooses entry choice)
    (isOther : method.isReceiver entry = false)
    (takesNone : method.takesDigit entry = false) :
    endsInDigit (toldApart choices choice index).text.toList = true ↔
      choice.name ∈ collisions choices := by
  obtain ⟨isFree, stem⟩ := chooses.of_isReceiver isOther
  by_cases collides : choice.name ∈ collisions choices
  · simp [toldApart, isFree, collides, UnqualifiedName.endsInDigit_numbered]
  · simp [toldApart, collides, stem takesNone]

/-- The suffix tells the names of different entries apart, unless a class has brought a
digit of its own. -/
theorem eq_of_toldApart {other : Entry} {otherChoice : Choice} {otherIndex : Nat}
    (isChoice : choices[index]? = some choice)
    (isOther : choices[otherIndex]? = some otherChoice)
    (chooses : method.Chooses entry choice)
    (otherChooses : method.Chooses other otherChoice)
    (notReceiver : method.isReceiver entry = false)
    (plain : method.takesDigit entry = false)
    (otherReceiver : method.isReceiver other = false)
    (otherPlain : method.takesDigit other = false)
    (same : toldApart choices choice index = toldApart choices otherChoice otherIndex) :
    index = otherIndex := by
  have together : choice.name ∈ collisions choices ↔
      otherChoice.name ∈ collisions choices := by
    rw [← endsInDigit_toldApart chooses notReceiver plain, same,
      endsInDigit_toldApart otherChooses otherReceiver otherPlain]
  obtain ⟨isFree, stem⟩ := chooses.of_isReceiver notReceiver
  obtain ⟨otherFree, otherStem⟩ := otherChooses.of_isReceiver otherReceiver
  by_cases collides : choice.name ∈ collisions choices
  · have otherCollides := together.mp collides
    simp only [toldApart, isFree, otherFree, List.contains_eq_mem, collides,
      otherCollides, decide_true, Bool.not_false, Bool.and_self, if_true] at same
    exact UnqualifiedName.numbered_inj (stem plain) (otherStem otherPlain) same
  · have otherCollides := mt together.mpr collides
    simp only [toldApart, List.contains_eq_mem, collides, otherCollides, decide_false,
      Bool.and_false, Bool.false_eq_true, if_false] at same
    by_contra different
    exact collides (mem_collisions different isChoice isOther same)

end Naming

namespace Query

variable {hierarchy : Hierarchy} {method : Method} {settings : Settings} {code : Code}
  {entries : List Entry}

theorem eval_nameVariables {improve : Bool} {choices : List Naming.Choice}
    (hasCode : method.code = some code) (hasTable : code.table = some entries)
    (chosen : method.chooseNames settings improve entries [] entries.zipIdx =
      .ok choices) :
    (nameVariables method settings improve : Query hierarchy _).eval =
      .ok (method.withNames code entries
        (Naming.writtenNames settings improve choices)) :=
  eval_bind_of_ok (Edit.nameVariables_writes hasCode hasTable chosen).eval_apply

/-- Naming the entries of a table changes nothing but their names, as long as each of them
gets one. -/
theorem forall₂_zipWith_name {names : List UnqualifiedName}
    (length_eq : names.length = entries.length) :
    List.Forall₂ (fun old new : Entry => new = { old with name := new.name }) entries
      (entries.zipWith (fun entry name => { entry with name := name }) names) := by
  induction entries generalizing names with
  | nil => exact .nil
  | cons entry rest ih =>
      cases names with
      | nil => cases length_eq
      | cons name others => exact .cons rfl (ih (Nat.succ.inj length_eq))

/-- What is in the named table comes from an entry and from what was chosen for it. -/
theorem exists_choice {choices : List Naming.Choice} {index : Nat} {written : Entry}
    (each : List.Forall₂ method.Chooses entries choices)
    (isWritten : (entries.zipWith (fun entry name => { entry with name := name })
      (Naming.disambiguate choices))[index]? = some written) :
    ∃ entry choice, entries[index]? = some entry ∧ choices[index]? = some choice ∧
      method.Chooses entry choice ∧
      written = { entry with name := Naming.toldApart choices choice index } := by
  obtain ⟨entry, name, isEntry, isName, rfl⟩ := List.getElem?_zipWith_eq_some.mp isWritten
  rw [Naming.getElem?_disambiguate, Option.map_eq_some_iff] at isName
  obtain ⟨choice, isChoice, rfl⟩ := isName
  have paired : (entries.zip choices)[index]? = some (entry, choice) :=
    List.getElem?_zip_eq_some.mpr ⟨isEntry, isChoice⟩
  exact ⟨entry, choice, isEntry, isChoice,
    (List.forall₂_iff_zip.mp each).2 (List.mem_of_getElem? paired), rfl⟩

/-- Two entries of which at most one can be that of the receiver are not both. -/
theorem not_both_receivers {index other : Nat} {first second : Entry}
    (oneReceiver : method.isStatic = false →
      entries.Pairwise fun left right => left.slot ≠ 0 ∨ right.slot ≠ 0)
    (different : index ≠ other) (isFirst : entries[index]? = some first)
    (isSecond : entries[other]? = some second) :
    ¬(method.isReceiver first = true ∧ method.isReceiver second = true) := by
  simp only [Method.isReceiver, Bool.and_eq_true, Bool.not_eq_true', decide_eq_true_eq]
  rintro ⟨⟨isInstance, firstSlot⟩, _, secondSlot⟩
  have apart := List.pairwise_iff_getElem.mp (oneReceiver isInstance)
  obtain ⟨firstBound, rfl⟩ := List.getElem?_eq_some_iff.mp isFirst
  obtain ⟨secondBound, rfl⟩ := List.getElem?_eq_some_iff.mp isSecond
  rcases Nat.lt_or_gt_of_ne different with less | more
  · exact (apart index other firstBound secondBound less).elim (· firstSlot)
      (· secondSlot)
  · exact (apart other index secondBound firstBound more).elim
      (· secondSlot) (· firstSlot)

/-- Let no names of parameters be recorded, and at most one entry be in the slot of the
receiver.  Then every entry gets a name, and nothing else of the table changes.  Two
entries have the same name only if one of them is an object of a class whose simple name
ends in a digit. -/
theorem names_collide_only_over_digits (hasCode : method.code = some code)
    (hasTable : code.table = some entries) (unrecorded : method.Unrecorded)
    (oneReceiver : method.isStatic = false →
      entries.Pairwise fun left right => left.slot ≠ 0 ∨ right.slot ≠ 0)
    (plain : settings.obfuscateNames = false) :
    ∃ named table, (nameVariables method settings true : Query hierarchy _).eval =
      .ok named ∧
      named.code = some { code with table := some table } ∧
      List.Forall₂ (fun old new => new = { old with name := new.name }) entries table ∧
      ∀ (index other : Nat) (first second : Entry), index ≠ other →
        table[index]? = some first →
        table[other]? = some second → first.name = second.name →
        method.takesDigit first = true ∨ method.takesDigit second = true := by
  have noOdometers : Naming.Odometers.Lettered [] := by simp [Naming.Odometers.Lettered]
  obtain ⟨choices, chosen, each⟩ :=
    @Method.exists_forall₂_chooses method settings entries []
    unrecorded plain noOdometers entries.zipIdx
  rw [List.zipIdx_map_fst] at each
  have names_eq : Naming.writtenNames settings true choices =
      Naming.disambiguate choices := by
    rw [Naming.writtenNames, plain]
    rfl
  have evaluated := @eval_nameVariables hierarchy _ _ _ _ _ _ hasCode hasTable chosen
  rw [names_eq] at evaluated
  refine ⟨_, _, evaluated, rfl, ?_, ?_⟩
  · apply forall₂_zipWith_name
    simp [Naming.disambiguate, each.length_eq]
  · intro index other first second different isFirst isSecond same
    obtain ⟨entry, choice, isEntry, isChoice, chooses, rfl⟩ := exists_choice each isFirst
    obtain ⟨otherEntry, otherChoice, isOther, isOtherChoice, otherChooses, rfl⟩ :=
      exists_choice each isSecond
    dsimp only at same
    have sameRole : method.isReceiver entry = true ↔
        method.isReceiver otherEntry = true := by
      rw [← Naming.toldApart_eq_this chooses, same, Naming.toldApart_eq_this otherChooses]
    have notBoth := not_both_receivers oneReceiver different isEntry isOther
    have notReceiver : method.isReceiver entry = false :=
      Bool.eq_false_iff.mpr fun isReceiver => notBoth ⟨isReceiver, sameRole.mp isReceiver⟩
    have otherReceiver : method.isReceiver otherEntry = false :=
      Bool.eq_false_iff.mpr fun isReceiver =>
        notBoth ⟨sameRole.mpr isReceiver, isReceiver⟩
    by_contra plain
    obtain ⟨plainFirst, plainSecond⟩ := not_or.mp plain
    exact different (Naming.eq_of_toldApart isChoice isOtherChoice chooses
      otherChooses notReceiver
      (Bool.eq_false_iff.mpr plainFirst) otherReceiver
        (Bool.eq_false_iff.mpr plainSecond) same)

/-- A method that does nothing, with a table. -/
def listingMethod (access : MethodAccess) (entries : List Entry) : Method :=
  { name := ⟨"listing", by decide⟩
    descriptor := ⟨[], none⟩
    access := access
    code := some (listingCode entries)
    parameterNames := none }
where
  listingCode (entries : List Entry) : Code :=
    { maxStack := 0
      maxLocals := entries.length
      instructions := #[.label ⟨0⟩, .returnVoid, .label ⟨1⟩]
      handlers := []
      table := some entries }

/-- The entry of an object. -/
def objectEntry (name : UnqualifiedName) (owner : BinaryName) (slot : Nat) : Entry :=
  ⟨name, .object owner, ⟨0⟩, ⟨1⟩, slot⟩

def point : BinaryName := .known "Point"

def firstPoint : BinaryName := .known "Point1"

/-- Entries of a receiver and of three objects of its class. -/
def pointEntries (name : UnqualifiedName) : List Entry :=
  [objectEntry name point 0, objectEntry name point 1, objectEntry name point 2,
    objectEntry name point 3]

/-- The receiver and the objects of its class have different names in the end. -/
theorem point_names_are_distinct :
    (listingMethod ⟨0⟩ (pointEntries .snowman)).Unrecorded ∧
      (pointEntries .snowman).Pairwise (fun left right => left.slot ≠ 0 ∨
        right.slot ≠ 0) ∧
      ∃ named code table,
        (nameVariables (listingMethod ⟨0⟩ (pointEntries .snowman)) {} true :
          Query ⟨[]⟩ _).eval = .ok named ∧
        named.code = some code ∧ code.table = some table ∧ table.length = 4 ∧
        (table.map Entry.name).Nodup := by
  have unrecorded : (listingMethod ⟨0⟩ (pointEntries .snowman)).Unrecorded := by
    simp [Method.Unrecorded, listingMethod]
  have oneReceiver : (pointEntries .snowman).Pairwise
      (fun left right => left.slot ≠ 0 ∨ right.slot ≠ 0) := by decide
  have noDigits : ∀ entry ∈ pointEntries .snowman,
      (listingMethod ⟨0⟩ (pointEntries .snowman)).takesDigit entry = false := by
        decide +kernel
  obtain ⟨named, table, evaluated, hasCode, each, collide⟩ :=
    @names_collide_only_over_digits ⟨[]⟩ _ {} _ _ rfl rfl unrecorded
      (fun _ => oneReceiver) rfl
  refine ⟨unrecorded, oneReceiver, named, _, table, evaluated, hasCode, rfl,
    each.length_eq.symm, ?_⟩
  have plain {index : Nat} (inBounds : index < table.length) :
      ¬(listingMethod ⟨0⟩ (pointEntries .snowman)).takesDigit table[index] = true := by
    have isOld : index < (pointEntries .snowman).length := each.length_eq ▸ inBounds
    have isRenamed := (List.forall₂_iff_get.mp each).2 index isOld inBounds
    rw [List.get_eq_getElem] at isRenamed
    have noDigit := noDigits _ (List.getElem_mem isOld)
    rw [isRenamed]
    exact Bool.eq_false_iff.mp noDigit
  rw [List.nodup_iff_pairwise_ne, List.pairwise_iff_getElem]
  intro index other first second less same
  rw [List.length_map] at first second
  rw [List.getElem_map, List.getElem_map] at same
  rcases collide index other _ _ (Nat.ne_of_lt less) (List.getElem?_eq_getElem first)
    (List.getElem?_eq_getElem second) same with takes | takes
  · exact plain first takes
  · exact plain second takes

/-- Entries of two objects of one class, and of an object of a class that has a number. -/
def clashingEntries (first second third : UnqualifiedName) : List Entry :=
  [objectEntry first point 0, objectEntry second point 1, objectEntry third firstPoint 2]

/-- The two objects of one class get numbers, and one of them so gets the name of the
third object. -/
theorem clashing_names_collide :
    (listingMethod ⟨8⟩ (clashingEntries .snowman .snowman .snowman)).Unrecorded ∧
      (listingMethod ⟨8⟩ (clashingEntries .snowman .snowman .snowman)).isStatic = true ∧
      ∃ named code table,
        (nameVariables (listingMethod ⟨8⟩ (clashingEntries .snowman .snowman .snowman))
          {} true :
          Query ⟨[]⟩ _).eval = .ok named ∧
        named.code = some code ∧ code.table = some table ∧
        ¬(table.map Entry.name).Nodup := by
  have evaluated :
      (nameVariables (listingMethod ⟨8⟩ (clashingEntries .snowman .snowman .snowman))
        {} true :
        Query ⟨[]⟩ _).eval =
      .ok (listingMethod ⟨8⟩ (clashingEntries ⟨"point0", by decide⟩ ⟨"point1", by decide⟩
        ⟨"point1", by decide⟩)) := by
    decide +kernel
  refine ⟨by simp [Method.Unrecorded, listingMethod], by decide, _, _, _, evaluated, rfl,
    rfl, ?_⟩
  decide

end Query

end LocalTable
