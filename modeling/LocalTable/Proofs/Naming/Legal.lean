import LocalTable.Proofs.Naming.Distinct

/-!
# Legal names

Naming the variables of a method does not fail.  What is made up as a name is not empty,
holds no delimiter and is no reserved word.  Underscores tell it from the reserved
words, and a number behind it cannot turn it into one again: no reserved word ends in a
digit.
-/

namespace LocalTable

namespace Naming

/-- The text can be the name of a variable. -/
structure IsLegal (text : String) : Prop where
  nonempty : text ≠ ""
  plain : ∀ character ∈ text.toList,
    character ≠ '.' ∧ character ≠ ';' ∧ character ≠ '[' ∧ character ≠ '/'
  unreserved : text ∉ reservedWords

theorem isLegal_of_unreserved {name : UnqualifiedName}
    (unreserved : name.text ∉ reservedWords) :
    IsLegal name.text := by
  refine ⟨fun isEmpty => name.valid.1 ?_, fun character member => ?_, unreserved⟩
  · rw [isEmpty]
    rfl
  · simpa [isDelimiter, and_assoc] using name.valid.2 character member

theorem numbered_not_mem_reservedWords (stem : UnqualifiedName) (number : Nat) :
    (stem.numbered number).text ∉ reservedWords := by
  have noDigits : ∀ word ∈ reservedWords, endsInDigit word.toList = false := by
    decide +kernel
  intro reserved
  have ends := UnqualifiedName.endsInDigit_numbered stem number
  rw [noDigits _ reserved] at ends
  cases ends

/-- Names that are told apart are no more reserved than they were. -/
theorem toldApart_not_mem_reservedWords {choices : List Choice}
    {choice : Choice} {index : Nat} (unreserved : choice.name.text ∉ reservedWords) :
    (toldApart choices choice index).text ∉ reservedWords := by
  unfold toldApart
  split
  · exact numbered_not_mem_reservedWords choice.name index
  · exact unreserved

theorem length_writtenNames (settings : Settings) (improve : Bool)
    (choices : List Choice) :
    (writtenNames settings improve choices).length = choices.length := by
  unfold writtenNames
  split
  · simp [disambiguate]
  · exact List.length_map _

end Naming

namespace Method

variable {method : Method} {settings : Settings} {improve : Bool} {entries : List Entry}
  {odometers : Naming.Odometers}

/-- The name that is recorded for an entry and given to it where names are made up. -/
def assignedName? (method : Method) (settings : Settings) (entries : List Entry)
    (entry : Entry) (index : Nat) : Option UnqualifiedName :=
  if method.usesRecorded settings true && isFirst entries entry index then
    method.recordedName? entry.slot
  else
    none

/-- A name is made up for the entry: it is not that of the receiver, and no recorded
name is given to it. -/
structure MakesUp (method : Method) (settings : Settings) (improve : Bool)
    (entries : List Entry) (entry : Entry) (index : Nat) : Prop where
  improves : improve = true
  plain : settings.obfuscateNames = false
  isOther : method.isReceiver entry = false
  unassigned : method.assignedName? settings entries entry index = none

theorem chooseName_of_makesUp {entry : Entry} {index : Nat}
    (makesUp : method.MakesUp settings improve entries entry index)
    (isSegment : IsSegment (Naming.generate odometers entry.type).1.toList) :
    method.chooseName settings improve entries odometers entry index =
      .ok (⟨⟨_, isSegment⟩, false⟩, (Naming.generate odometers entry.type).2) := by
  obtain ⟨rfl, plain, isOther, unassigned⟩ := makesUp
  unfold isReceiver at isOther
  unfold assignedName? at unassigned
  unfold chooseName
  simp only [isOther, plain, unassigned, Bool.false_eq_true, if_false, if_true]
  rw [UnqualifiedName.ofString_of_isSegment isSegment]

/-- Choosing a name succeeds, and what is made up is not reserved. -/
theorem exists_unreserved (lettered : odometers.Lettered) (entry : Entry) (index : Nat) :
    ∃ choice later, method.chooseName settings improve entries odometers entry index =
      .ok (choice, later) ∧ later.Lettered ∧
        (method.MakesUp settings improve entries entry index →
          choice.name.text ∉ Naming.reservedWords) := by
  obtain ⟨choice, later, chosen, laterLettered⟩ :=
    @exists_chooseName method settings improve entries odometers lettered entry index
  refine ⟨choice, later, chosen, laterLettered, fun makesUp => ?_⟩
  obtain ⟨isSegment, _⟩ := Naming.isSegment_generate lettered entry.type
  rw [chooseName_of_makesUp makesUp isSegment] at chosen
  cases chosen
  exact Naming.unreserved_not_mem _

end Method

namespace Query

variable {hierarchy : Hierarchy}

/-- Without a table there is nothing to name. -/
theorem eval_nameVariables_of_untabled {method : Method} (settings : Settings)
    (improve : Bool) (untabled : ∀ code, method.code = some code → code.table = none) :
    (nameVariables method settings improve : Query hierarchy _).eval = .ok method := by
  have yields : (Edit.nameVariables settings improve : Edit hierarchy Unit).Yields
      method (.ok ()) method := by
    refine Edit.yields_get.bind ?_
    cases hasCode : method.code with
    | none => exact Edit.yields_pure ()
    | some code =>
        dsimp only
        rw [untabled code hasCode]
        exact Edit.yields_pure ()
  exact eval_bind_of_ok yields.eval_apply

/-- What is made up is written, and stays unreserved when it is told apart. -/
theorem isLegal_of_written {method : Method} {settings : Settings} {improve : Bool}
    {entries : List Entry} {choices : List Naming.Choice} {index : Nat}
    {entry written : Entry}
    (each : List.Forall₂ (fun numbered choice =>
      method.MakesUp settings improve entries numbered.1 numbered.2 →
        choice.name.text ∉ Naming.reservedWords) entries.zipIdx choices)
    (isEntry : entries[index]? = some entry)
    (isWritten : (entries.zipWith (fun entry name => { entry with name := name })
      (Naming.writtenNames settings improve choices))[index]? = some written)
    (makesUp : method.MakesUp settings improve entries entry index) :
    Naming.IsLegal written.name.text := by
  have names_eq : Naming.writtenNames settings improve choices =
      Naming.disambiguate choices := by
    rw [Naming.writtenNames, makesUp.improves, makesUp.plain]
    rfl
  rw [names_eq] at isWritten
  obtain ⟨_, name, _, isName, rfl⟩ := List.getElem?_zipWith_eq_some.mp isWritten
  rw [Naming.getElem?_disambiguate, Option.map_eq_some_iff] at isName
  obtain ⟨choice, isChoice, rfl⟩ := isName
  have isNumbered : entries.zipIdx[index]? = some (entry, index) := by
    simp [List.getElem?_zipIdx, isEntry]
  have paired : (entries.zipIdx.zip choices)[index]? = some ((entry, index), choice) :=
    List.getElem?_zip_eq_some.mpr ⟨isNumbered, isChoice⟩
  have unreserved := (List.forall₂_iff_zip.mp each).2
    (List.mem_of_getElem? paired) makesUp
  exact Naming.isLegal_of_unreserved (Naming.toldApart_not_mem_reservedWords unreserved)

/-- Naming the variables of a method succeeds, and of its table it changes nothing but
the names. Every name that is made up is legal. -/
theorem naming_succeeds_with_legal_names (method : Method) (settings : Settings)
    (improve : Bool) :
    ∃ named, (nameVariables method settings improve : Query hierarchy _).eval =
      .ok named ∧
      ∀ code entries, method.code = some code → code.table = some entries →
        ∃ table, named.code = some { code with table := some table } ∧
          List.Forall₂ (fun old new => new = { old with name := new.name })
            entries table ∧
          ∀ (index : Nat) (entry written : Entry), entries[index]? = some entry →
            table[index]? = some written →
              method.MakesUp settings improve entries entry index →
            Naming.IsLegal written.name.text := by
  by_cases tabled : ∃ code entries, method.code = some code ∧ code.table = some entries
  · obtain ⟨code, entries, hasCode, hasTable⟩ := tabled
    have noOdometers : Naming.Odometers.Lettered [] := by simp [Naming.Odometers.Lettered]
    obtain ⟨choices, chosen, each⟩ := Method.exists_forall₂_chooseNames
      (fun numbered choice => method.MakesUp settings improve entries
        numbered.1 numbered.2 → choice.name.text ∉ Naming.reservedWords)
      (fun odometers entry index lettered =>
        @Method.exists_unreserved method settings improve entries odometers
          lettered entry index)
      noOdometers entries.zipIdx
    refine ⟨_, eval_nameVariables hasCode hasTable chosen, ?_⟩
    rintro _ _ isCode isTable
    cases hasCode.symm.trans isCode
    cases hasTable.symm.trans isTable
    refine ⟨_, rfl, ?_, fun index entry written isEntry =>
      isLegal_of_written each isEntry⟩
    apply forall₂_zipWith_name
    rw [Naming.length_writtenNames, ← each.length_eq, List.length_zipIdx]
  · refine ⟨method, eval_nameVariables_of_untabled settings improve
      fun code hasCode => ?_, ?_⟩
    · cases hasTable : code.table with
      | none => rfl
      | some entries => exact absurd ⟨code, entries, hasCode, hasTable⟩ tabled
    · intro code entries hasCode hasTable
      exact absurd ⟨code, entries, hasCode, hasTable⟩ tabled

/-- A class whose name is a reserved word in lower case. -/
def intClass : BinaryName := .known "me/Int"

/-- A class without any letters in its name. -/
def numberClass : BinaryName := .known "$1$"

/-- Entries of a receiver, of two objects that are named after a reserved word, and of
one that cannot be named after its class. -/
def awkwardEntries (first second third fourth : UnqualifiedName) : List Entry :=
  [objectEntry first intClass 0, objectEntry second intClass 1,
    objectEntry third intClass 2, objectEntry fourth numberClass 3]

/-- The two objects get an underscore and a number, and the nameless one is an
`object`. -/
theorem awkward_names_are_legal :
    ∃ named code table,
      (nameVariables (listingMethod ⟨0⟩
        (awkwardEntries .snowman .snowman .snowman .snowman)) {} true :
          Query ⟨[]⟩ _).eval =
          .ok named ∧
      named.code = some code ∧ code.table = some table ∧
      table.map (fun entry => entry.name.text) = ["this", "int_1", "int_2", "object"] ∧
      ∀ entry ∈ table.tail, Naming.IsLegal entry.name.text := by
  have evaluated :
      (nameVariables (listingMethod ⟨0⟩
        (awkwardEntries .snowman .snowman .snowman .snowman)) {} true :
          Query ⟨[]⟩ _).eval =
      .ok
        (listingMethod ⟨0⟩ (awkwardEntries .this ⟨"int_1", by decide⟩ ⟨"int_2", by decide⟩
        ⟨"object", by decide⟩)) := by
    decide +kernel
  obtain ⟨named, isNamed, writes⟩ := @naming_succeeds_with_legal_names ⟨[]⟩
    (listingMethod ⟨0⟩ (awkwardEntries .snowman .snowman .snowman .snowman)) {} true
  cases isNamed.symm.trans evaluated
  obtain ⟨table, hasTable, _, legal⟩ := writes _ _ rfl rfl
  cases hasTable
  refine ⟨_, _, _, evaluated, rfl, rfl, rfl, fun entry member => ?_⟩
  obtain rfl | rfl | rfl : _ ∨ _ ∨ _ := by simpa [awkwardEntries] using member
  · exact legal 1 _ _ rfl rfl ⟨rfl, rfl, rfl, rfl⟩
  · exact legal 2 _ _ rfl rfl ⟨rfl, rfl, rfl, rfl⟩
  · exact legal 3 _ _ rfl rfl ⟨rfl, rfl, rfl, rfl⟩

end Query

end LocalTable
