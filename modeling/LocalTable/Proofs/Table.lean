import LocalTable.Proofs.Labelling

/-!
# Placement of scopes

Writing scopes as entries of a table puts new labels into the code.  Without
them, the code is what it was.  An entry covers the real instructions of its
scope and no others, and scopes that do not meet are not made to meet by their
labels.
-/

namespace LocalTable

namespace Scope

/-- The entry shows the slot and the type of the scope, and its labels mark the
boundaries of the scope. -/
structure WrittenAs (code : Code) (labelling : Labelling) (scope : Scope)
    (entry : Entry) :
    Prop where
  slot : entry.slot = scope.slot
  type : scope.type.fieldType? = some entry.type
  first : labelling.labelOf? code.instructions scope.first = some entry.first
  stop : labelling.labelOf? code.instructions (scope.last + 1) = some entry.stop

/-- Does the scope get an entry?  Upper halves of wide values do not. -/
def isWritten (scope : Scope) : Bool :=
  scope.type ≠ .top

theorem fieldType?_eq_none {type : ValueType} : type.fieldType? = none ↔ type = .top := by
  cases type <;> simp [ValueType.fieldType?]

/-- The scopes lie within the code. -/
def WithinCode (code : Code) (scopes : List Scope) : Prop :=
  ∀ scope ∈ scopes, scope.first ≤ scope.last ∧ scope.last < code.instructions.size

/-- Every scope but those of upper halves is written as an entry, in order. -/
theorem entries_spec {code : Code} {labelling final : Labelling} {scopes : List Scope}
    {number : Nat} {written : List Entry} (valid : labelling.Valid code)
    (within : WithinCode code scopes)
    (attached : entries code.instructions labelling number scopes = (written, final)) :
    final.Valid code ∧ labelling.Extends final ∧
      List.Forall₂ (WrittenAs code final) (scopes.filter isWritten) written := by
  induction scopes generalizing labelling number written with
  | nil =>
      cases attached
      exact ⟨valid, fun _ _ => id, .nil⟩
  | cons scope rest ih =>
      obtain ⟨lower, upper⟩ := within scope (by simp)
      have restWithin : WithinCode code rest :=
        fun other member => within other (by simp [member])
      unfold entries at attached
      cases typed : scope.type.fieldType? with
      | none =>
          have skipped : scope.isWritten = false := by
            simpa [isWritten] using fieldType?_eq_none.mp typed
          simp only [typed, entry?, Option.map_none] at attached
          rw [List.filter_cons_of_neg (by simp [skipped])]
          exact ih valid restWithin attached
      | some type =>
          have kept : scope.isWritten = true := by
            by_contra skipped
            have isTop : scope.type = .top := by simpa [isWritten] using skipped
            rw [fieldType?_eq_none.mpr isTop] at typed
            contradiction
          obtain ⟨first, started⟩ :
              ∃ first, labelling.labelAt code.instructions scope.first = first := ⟨_, rfl⟩
          obtain ⟨stop, stopped⟩ :
              ∃ stop, first.2.labelAt code.instructions (scope.last + 1) = stop :=
                ⟨_, rfl⟩
          obtain ⟨following, done⟩ :
              ∃ following, entries code.instructions stop.2 (number + 1)
                  rest = following :=
            ⟨_, rfl⟩
          simp only [typed, entry?, Option.map_some, started, stopped, done] at attached
          cases attached
          obtain ⟨validFirst, growFirst, marksFirst⟩ :=
            Labelling.labelAt_spec valid (by omega) started
          obtain ⟨validStop, growStop, marksStop⟩ :=
            Labelling.labelAt_spec validFirst (by omega) stopped
          obtain ⟨validFinal, growFinal, others⟩ := ih validStop restWithin done
          refine ⟨validFinal, (growFirst.trans growStop).trans growFinal, ?_⟩
          rw [List.filter_cons_of_pos kept]
          exact .cons ⟨rfl, typed, growFinal.labelOf? (growStop.labelOf? marksFirst),
            growFinal.labelOf? marksStop⟩ others

/-- A condition that asking for the labels of boundaries keeps is kept by writing
scopes. -/
theorem entries_induction {P : Labelling → Prop} {instructions : Array Instruction}
    {labelling final : Labelling} {scopes : List Scope} {number : Nat}
    {written : List Entry}
    (kept : ∀ scope ∈ scopes, ∀ boundary, boundary = scope.first ∨
      boundary = scope.last + 1 →
      ∀ before, P before → P (before.labelAt instructions boundary).2)
    (holds : P labelling)
    (attached : entries instructions labelling number scopes = (written, final)) :
    P final := by
  induction scopes generalizing labelling number written with
  | nil =>
      cases attached
      exact holds
  | cons scope rest ih =>
      have restKept := fun other member => kept other (List.mem_cons_of_mem scope member)
      unfold entries at attached
      cases typed : scope.type.fieldType? with
      | none =>
          simp only [typed, entry?, Option.map_none] at attached
          exact ih restKept holds attached
      | some type =>
          simp only [typed, entry?, Option.map_some] at attached
          cases attached
          have started := kept scope (List.mem_cons_self ..) _ (.inl rfl) _ holds
          exact ih restKept (kept scope (List.mem_cons_self ..) _ (.inr rfl)
            _ started) rfl

end Scope

namespace Code

/-- Is the instruction a label that the code does not place? -/
def lacks (code : Code) (instruction : Instruction) : Bool :=
  instruction.label?.any fun label => !code.placedLabels.contains label

/-- Where an instruction of the code stands in the labelled code, which has the
same instructions apart from labels that the code lacks. -/
def placeIn? (code labelled : Code) (index : Nat) : Option Nat :=
  (labelled.instructions.toList.zipIdx.filter fun pair => !code.lacks pair.1)[index]?.map
    Prod.snd

/-- The first real instruction from a position on. -/
def realFrom? (code : Code) (position : Nat) : Option Nat :=
  (code.instructions.toList.zipIdx.find? fun pair => position ≤ pair.2 &&
    !pair.1.isPseudo).map Prod.snd

/-- The first real instruction behind a label. -/
def realAfter? (code : Code) (label : Label) : Option Nat :=
  (code.position? label).bind code.realFrom?

/-- The code with the labels placed. -/
def withLabels (code : Code) (labelling : Labelling) : Code :=
  { code with instructions := labelling.insertInto code.instructions }

section WithLabels

variable {code : Code} {labelling : Labelling}

theorem lacks_of_mem {instruction : Instruction}
    (member : instruction ∈ code.instructions.toList) :
    code.lacks instruction = false := by
  rw [Array.mem_toList_iff, Array.mem_iff_getElem?] at member
  obtain ⟨position, present⟩ := member
  cases placed : instruction.label? with
  | none => simp [lacks, placed]
  | some label =>
      rw [Instruction.label?_eq_some] at placed
      subst placed
      simpa [lacks, Instruction.label?] using mem_placedLabels.mpr ⟨position, present⟩

theorem lacks_of_marker (valid : labelling.Valid code) {position : Nat}
    {instruction : Instruction} (member : instruction ∈ labelling.marker position) :
    code.lacks instruction = true := by
  simp only [Labelling.marker, Option.mem_toList, Option.map_eq_some_iff] at member
  obtain ⟨label, placed, rfl⟩ := member
  simp only [lacks, Instruction.label?, Option.any_some, Bool.not_eq_true',
    List.contains_eq_mem, decide_eq_false_iff_not]
  intro known
  obtain ⟨position, present⟩ := mem_placedLabels.mp known
  exact valid.not_standing placed present

/-- The labelled code holds the instructions of the code, each at its place,
and labels that the code lacks. -/
theorem filter_zipIdx_withLabels (valid : labelling.Valid code) :
    (code.withLabels labelling).instructions.toList.zipIdx.filter
        (fun pair => !code.lacks pair.1) =
      code.instructions.toList.zipIdx.map
        fun (instruction, index) =>
          (instruction, Labelling.place labelling.marker index) := by
  have woven := @Labelling.filter_zipIdx_weave _ labelling.marker code.instructions.toList
    (fun instruction => !code.lacks instruction)
    (fun position mark member => by simp [lacks_of_marker valid member])
    (fun instruction member => by simp [lacks_of_mem member]) 0
  simpa only [withLabels, Labelling.toList_insertInto, Nat.zero_add] using woven

theorem filter_withLabels (valid : labelling.Valid code) :
    (code.withLabels labelling).instructions.toList.filter
      (fun other => !code.lacks other) = code.instructions.toList := by
  have kept := congrArg (List.map Prod.fst) (filter_zipIdx_withLabels valid)
  have forget (items : List Instruction) :
      (items.zipIdx.filter fun pair => !code.lacks pair.1).map Prod.fst =
        items.filter fun other => !code.lacks other := by
    have moved := List.filter_map (f := Prod.fst) (p := fun other => !code.lacks other)
      (l := items.zipIdx)
    rw [List.zipIdx_map_fst] at moved
    exact moved.symm
  rw [forget, List.map_map] at kept
  rw [kept]
  exact List.zipIdx_map_fst _ _

theorem placeIn?_withLabels (valid : labelling.Valid code) {index : Nat}
    (inBounds : index < code.instructions.size) :
    code.placeIn? (code.withLabels labelling) index =
      some (Labelling.place labelling.marker index) := by
  simp [placeIn?, filter_zipIdx_withLabels valid, inBounds]

/-- New labels differ from each other and from the labels of the code. -/
theorem labelsDistinct_withLabels (distinct : code.LabelsDistinct)
    (valid : labelling.Valid code) : (code.withLabels labelling).LabelsDistinct := by
  rw [labelsDistinct_iff] at distinct ⊢
  intro label left right inLeft inRight
  rw [withLabels, Labelling.getElem?_insertInto] at inLeft inRight
  rcases inLeft with ⟨leftIndex, leftStands, rfl⟩ | ⟨leftBoundary, _, _,
    leftPlaced, ⟨⟩, rfl⟩ <;>
    rcases inRight with ⟨rightIndex, rightStands, rfl⟩ | ⟨rightBoundary, _, _,
      rightPlaced, ⟨⟩, rfl⟩
  · rw [distinct label leftIndex rightIndex leftStands rightStands]
  · exact absurd leftStands (valid.not_standing rightPlaced)
  · exact absurd rightStands (valid.not_standing leftPlaced)
  · rw [valid.injective leftPlaced rightPlaced]

/-- The real instruction from a position on stays the one from the place of the position
on. -/
theorem realFrom?_withLabels (valid : labelling.Valid code) (position : Nat) :
    (code.withLabels labelling).realFrom? (Labelling.place labelling.marker position) =
      (code.realFrom? position).map (Labelling.place labelling.marker) := by
  have skips (instruction : Instruction) (real : instruction.isPseudo = false) :
      code.lacks instruction = false := by
    cases placed : instruction.label? with
    | none => simp [lacks, placed]
    | some label =>
        rw [Instruction.label?_eq_some] at placed
        subst placed
        cases real
  have filtered : (code.withLabels labelling).instructions.toList.zipIdx.find?
      (fun pair =>
        Labelling.place labelling.marker position ≤ pair.2 && !pair.1.isPseudo) =
      ((code.withLabels labelling).instructions.toList.zipIdx.filter
        fun pair => !code.lacks pair.1).find? fun pair =>
          Labelling.place labelling.marker position ≤ pair.2 && !pair.1.isPseudo := by
    rw [List.find?_filter]
    congr 1
    funext pair
    cases real : pair.1.isPseudo with
    | true => simp
    | false => simp [skips _ real]
  unfold realFrom?
  rw [filtered, filter_zipIdx_withLabels valid, List.find?_map, Option.map_map,
    Option.map_map]
  refine congrArg (Option.map _) (congrArg (List.find? · _) (funext fun pair => ?_))
  exact congrArg (· && !pair.1.isPseudo)
    (decide_eq_decide.mpr (Labelling.place_le_place_iff _))

/-- A label of the code keeps the real instruction behind it. -/
theorem realAfter?_withLabels (distinct : code.LabelsDistinct)
    (valid : labelling.Valid code) {label : Label}
    (isPlaced : label ∈ code.placedLabels) :
    (code.withLabels labelling).realAfter? label =
      (code.realAfter? label).bind (code.placeIn? (code.withLabels labelling)) := by
  obtain ⟨position, stands⟩ := mem_placedLabels.mp isPlaced
  have standsThere :
      (code.withLabels labelling).instructions[Labelling.place labelling.marker
      position]? = some (.label label) :=
    Labelling.getElem?_insertInto.mpr (.inl ⟨position, stands, rfl⟩)
  have labelled := labelsDistinct_withLabels distinct valid
  unfold realAfter?
  rw [(position?_eq_some distinct).mpr stands,
    (position?_eq_some labelled).mpr standsThere, Option.bind_some, Option.bind_some,
      realFrom?_withLabels valid]
  cases found : code.realFrom? position with
  | none => rfl
  | some index =>
      obtain ⟨⟨instruction, _⟩, isFound, rfl⟩ := Option.map_eq_some_iff.mp found
      obtain ⟨inBounds, _⟩ := List.mem_zipIdx' (List.mem_of_find?_eq_some isFound)
      exact (placeIn?_withLabels valid (by simpa using inBounds)).symm

end WithLabels

end Code

/-! ## Attaching scopes to code -/

namespace Entry

/-- Does the scope of the entry, from its first label up to the one behind it,
take in a position of the code? -/
def covers (entry : Entry) (code : Code) (position : Nat) : Bool :=
  match code.position? entry.first, code.position? entry.stop with
  | some first, some stop => first ≤ position && position < stop
  | _, _ => false

end Entry

namespace Scope

variable {code : Code} {labelling : Labelling} {scope : Scope} {entry : Entry}

/-- The labels of an entry have their places in the labelled code. -/
theorem WrittenAs.exists_markedAt (distinct : code.LabelsDistinct)
    (valid : labelling.Valid code)
    (inBounds : scope.first ≤ scope.last ∧ scope.last < code.instructions.size)
    (written : WrittenAs code labelling scope entry) :
    ∃ first stop, Labelling.MarkedAt code labelling scope.first entry.first first ∧
      Labelling.MarkedAt code labelling (scope.last + 1) entry.stop stop ∧
      (code.withLabels labelling).position? entry.first = some first ∧
      (code.withLabels labelling).position? entry.stop = some stop := by
  have labelled := Code.labelsDistinct_withLabels distinct valid
  obtain ⟨first, firstMarked⟩ := Labelling.exists_markedAt (by omega) written.first
  obtain ⟨stop, stopMarked⟩ := Labelling.exists_markedAt (by omega) written.stop
  exact ⟨first, stop, firstMarked, stopMarked,
    (Code.position?_eq_some labelled).mpr (firstMarked.getElem? valid),
    (Code.position?_eq_some labelled).mpr (stopMarked.getElem? valid)⟩

/-- An entry covers the real instructions of its scope and no others. -/
theorem WrittenAs.covers_iff (distinct : code.LabelsDistinct)
    (valid : labelling.Valid code)
    (inBounds : scope.first ≤ scope.last ∧ scope.last < code.instructions.size)
    (written : WrittenAs code labelling scope entry) {index : Nat}
    {instruction : Instruction} (present : code.instructions[index]? = some instruction)
    (real : instruction.isPseudo = false) :
    entry.covers (code.withLabels labelling)
    (Labelling.place labelling.marker index) = true ↔
      scope.first ≤ index ∧ index ≤ scope.last := by
  obtain ⟨first, stop, firstMarked, stopMarked, firstFound, stopFound⟩ :=
    written.exists_markedAt distinct valid inBounds
  have afterFirst := firstMarked.le_place_iff present real
  have beforeStop := stopMarked.le_place_iff present real
  simp only [Entry.covers, firstFound, stopFound, Bool.and_eq_true, decide_eq_true_eq]
  omega

/-- The labels of an entry are placed once each. -/
theorem WrittenAs.count_eq_one (distinct : code.LabelsDistinct)
    (valid : labelling.Valid code)
    (inBounds : scope.first ≤ scope.last ∧ scope.last < code.instructions.size)
    (written : WrittenAs code labelling scope entry) :
    (code.withLabels labelling).placedLabels.count entry.first = 1 ∧
      (code.withLabels labelling).placedLabels.count entry.stop = 1 := by
  have labelled := Code.labelsDistinct_withLabels distinct valid
  obtain ⟨first, stop, firstMarked, stopMarked, _⟩ :=
    written.exists_markedAt distinct valid inBounds
  exact ⟨List.count_eq_one_of_mem labelled
      (Code.mem_placedLabels.mpr ⟨first, firstMarked.getElem? valid⟩),
    List.count_eq_one_of_mem labelled
      (Code.mem_placedLabels.mpr ⟨stop, stopMarked.getElem? valid⟩)⟩

/-- Entries show the slots and the types of their scopes. -/
theorem map_eq_of_written {scopes : List Scope} {written : List Entry}
    (each : List.Forall₂ (WrittenAs code labelling) scopes written) :
    written.map (fun entry => (entry.slot, some entry.type)) =
      scopes.map (fun scope => (scope.slot, scope.type.fieldType?)) := by
  induction each with
  | nil => rfl
  | cons head _ ih => rw [List.map_cons, List.map_cons, head.slot, head.type, ih]

/-- The boundaries of scopes, with the labels that their entries give them. -/
def boundaries (scopes : List Scope) (written : List Entry) : List (Nat × Label) :=
  (scopes.zip written).flatMap fun (scope, entry) =>
    [(scope.first, entry.first), (scope.last + 1, entry.stop)]

theorem labelOf?_of_mem_boundaries {scopes : List Scope} {written : List Entry}
    (within : WithinCode code scopes)
    (each : List.Forall₂ (WrittenAs code labelling) scopes written) {mark : Nat × Label}
    (member : mark ∈ boundaries scopes written) :
    mark.1 ≤ code.instructions.size ∧
      labelling.labelOf? code.instructions mark.1 = some mark.2 := by
  simp only [boundaries, List.mem_flatMap, Prod.exists] at member
  obtain ⟨scope, entry, paired, marks⟩ := member
  have inBounds := within scope (List.of_mem_zip paired).1
  have written := List.forall₂_iff_zip.mp each |>.2 paired
  simp only [List.mem_cons, List.not_mem_nil, or_false] at marks
  rcases marks with rfl | rfl
  · exact ⟨by simp only; omega, written.first⟩
  · exact ⟨by simp only; omega, written.stop⟩

end Scope

namespace Code

variable {code : Code} {scopes : List Scope}

/-- There is a number for a new label at every boundary of the code. -/
def HasRoom (code : Code) : Prop :=
  code.freshLabel.number + code.instructions.size + 1 ≤ Label.lastNumber

instance (code : Code) : Decidable code.HasRoom :=
  inferInstanceAs (Decidable (_ ≤ _))

/-- The labels of the entries are new.  They are placed if numbers reach that far. -/
theorem attach_eq (code : Code) (scopes : List Scope) :
    ∃ entries labelling,
      Scope.entries code.instructions ⟨code.freshLabel, []⟩ 0 scopes =
        (entries, labelling) ∧
      labelling.Fresh code ∧
      code.attach scopes = if labelling.free.number ≤ Label.lastNumber then
        .ok (code.withLabels labelling, entries) else .error .outOfLabels := by
  obtain ⟨⟨entries, labelling⟩, written⟩ : ∃ result, Scope.entries code.instructions
      ⟨code.freshLabel, []⟩ 0 scopes = result := ⟨_, rfl⟩
  have fresh : labelling.Fresh code :=
    Scope.entries_induction (fun _ _ _ _ _ fresh => fresh.labelAt rfl)
      (Labelling.valid_start code).toFresh written
  refine ⟨entries, labelling, written, fresh, ?_⟩
  simp only [attach, written]
  rfl

/-- Where there is room, labels do not run out. -/
theorem exists_attach (within : Scope.WithinCode code scopes) (room : code.HasRoom) :
    ∃ attached, code.attach scopes = .ok attached := by
  obtain ⟨entries, labelling, written, _, attach_eq⟩ := attach_eq code scopes
  have counted : labelling.Counted code := by
    refine Scope.entries_induction ?_ (Labelling.counted_start code) written
    intro scope member boundary isBoundary before counted
    obtain ⟨lower, upper⟩ := within scope member
    exact counted.labelAt (by omega)
  rw [if_pos (Nat.le_trans counted.free_le room)] at attach_eq
  exact ⟨_, attach_eq⟩

/-- Nothing but labels can run out. -/
theorem outOfLabels_of_attach {error : Error}
    (failed : code.attach scopes = .error error) :
    error = .outOfLabels := by
  obtain ⟨_, _, _, _, attach_eq⟩ := attach_eq code scopes
  split at attach_eq
  next => cases failed.symm.trans attach_eq
  next =>
    cases failed.symm.trans attach_eq
    rfl

/-- Behind the last label there is none, even if none is needed. -/
theorem attach_of_lastLabel (scopes : List Scope)
    (used : Label.lastNumber < code.freshLabel.number) :
    code.attach scopes = .error .outOfLabels := by
  obtain ⟨_, _, _, fresh, attach_eq⟩ := attach_eq code scopes
  rw [if_neg (Nat.not_le.mpr (Nat.lt_of_lt_of_le used fresh.fresh_le))] at attach_eq
  exact attach_eq

/-- Attaching scopes places new labels and writes every scope but those of upper
halves. -/
theorem attach_spec {labelled : Code} {entries : List Entry}
    (within : Scope.WithinCode code scopes)
    (attached : code.attach scopes = .ok (labelled, entries)) :
    ∃ labelling : Labelling, labelled = code.withLabels labelling ∧ labelling.Valid code ∧
      List.Forall₂ (Scope.WrittenAs code labelling)
      (scopes.filter Scope.isWritten) entries := by
  obtain ⟨_, labelling, written, _, attach_eq⟩ := attach_eq code scopes
  split at attach_eq
  next =>
    cases attached.symm.trans attach_eq
    obtain ⟨valid, _, each⟩ :=
      Scope.entries_spec (Labelling.valid_start code) within written
    exact ⟨labelling, rfl, valid, each⟩
  next => cases attached.symm.trans attach_eq

/-- Whatever the scopes, attaching them places new labels. -/
theorem attach_eq_withLabels {labelled : Code} {entries : List Entry}
    (attached : code.attach scopes = .ok (labelled, entries)) :
    ∃ labelling : Labelling, labelling.Valid code ∧
      labelled = code.withLabels labelling := by
  obtain ⟨_, labelling, _, fresh, attach_eq⟩ := attach_eq code scopes
  split at attach_eq
  next =>
    cases attached.symm.trans attach_eq
    refine ⟨labelling.clip code.instructions.size, fresh.valid_clip, ?_⟩
    rw [withLabels, withLabels, Labelling.insertInto_clip]
  next => cases attached.symm.trans attach_eq

/-- Attaching scopes to code with distinct labels, and numbers for more of them, keeps
the code apart from new labels, which are distinct as well.  The entries are those of
the scopes of variables, in order.  Each label of an entry is placed once, between its
labels lie the real instructions of its scope, and the labels of boundaries stand in
the order of the boundaries. -/
theorem attach_places_scopes (distinct : code.LabelsDistinct) (room : code.HasRoom)
    (within : Scope.WithinCode code scopes) :
    ∃ (labelled : Code) (entries : List Entry),
      code.attach scopes = .ok (labelled, entries) ∧
      labelled = { code with instructions := labelled.instructions } ∧
      labelled.instructions.toList.filter (fun instruction => !code.lacks instruction) =
        code.instructions.toList ∧
      (labelled.placedLabels.filter fun label =>
        !code.placedLabels.contains label).Nodup ∧
      entries.map (fun entry => (entry.slot, some entry.type)) =
        (scopes.filter Scope.isWritten).map
          (fun scope => (scope.slot, scope.type.fieldType?)) ∧
      List.Forall₂
        (fun scope entry =>
          labelled.placedLabels.count entry.first = 1 ∧
          labelled.placedLabels.count entry.stop = 1 ∧
          ∀ (index position : Nat) (instruction : Instruction),
            code.instructions[index]? = some instruction → instruction.isPseudo = false →
            code.placeIn? labelled index = some position →
            (entry.covers labelled position = true ↔
              scope.first ≤ index ∧ index ≤ scope.last))
        (scopes.filter Scope.isWritten) entries ∧
      ∀ left ∈ Scope.boundaries (scopes.filter Scope.isWritten) entries,
        ∀ right ∈ Scope.boundaries (scopes.filter Scope.isWritten) entries,
          left.1 ≤ right.1 → ∃ first second, labelled.position? left.2 = some first ∧
            labelled.position? right.2 = some second ∧ first ≤ second := by
  obtain ⟨⟨_, entries⟩, attached⟩ := exists_attach within room
  obtain ⟨labelling, rfl, valid, written⟩ := attach_spec within attached
  have labelled := labelsDistinct_withLabels distinct valid
  have filtered : Scope.WithinCode code (scopes.filter Scope.isWritten) :=
    fun scope member => within scope (List.mem_of_mem_filter member)
  refine ⟨code.withLabels labelling, entries, attached, rfl, filter_withLabels valid,
    labelled.filter _, ?_, ?_, ?_⟩
  · exact Scope.map_eq_of_written written
  · rw [List.forall₂_iff_zip] at written ⊢
    refine ⟨written.1, fun {scope entry} paired => ?_⟩
    have inBounds := filtered scope (List.of_mem_zip paired).1
    have entered := written.2 paired
    obtain ⟨once, stopOnce⟩ := entered.count_eq_one distinct valid inBounds
    refine ⟨once, stopOnce, fun index position instruction present real placed => ?_⟩
    rw [placeIn?_withLabels valid (Array.getElem?_eq_some_iff.mp present).1,
      Option.some.injEq] at placed
    rw [← placed]
    exact entered.covers_iff distinct valid inBounds present real
  · intro left leftMember right rightMember le
    obtain ⟨leftInBounds, leftLabel⟩ :=
      Scope.labelOf?_of_mem_boundaries filtered written leftMember
    obtain ⟨rightInBounds, rightLabel⟩ :=
      Scope.labelOf?_of_mem_boundaries filtered written rightMember
    obtain ⟨first, firstMarked⟩ := Labelling.exists_markedAt leftInBounds leftLabel
    obtain ⟨second, secondMarked⟩ := Labelling.exists_markedAt rightInBounds rightLabel
    exact ⟨first, second, (position?_eq_some labelled).mpr (firstMarked.getElem? valid),
      (position?_eq_some labelled).mpr (secondMarked.getElem? valid),
      firstMarked.mono le rightInBounds secondMarked⟩

/-- Two scopes that meet inside a run of pseudo-instructions share the label that
stands there; the other boundaries get new labels. -/
theorem attach_places_scopes_sharing :
    ∃ (labelled : Code) (entries : List Entry),
      attach ⟨1, 2, #[.intConstant 0, .store .int 1, .lineNumber 7,
          .label ⟨4⟩, .load .int 1, .returnValue .int], [], none⟩
        [⟨0, .int, 0, 1, IndexSet.ofList [0, 1]⟩,
          ⟨0, .float, 2, 3, IndexSet.ofList [2, 3]⟩,
            ⟨1, .int, 3, 5, IndexSet.ofList [3, 4, 5]⟩] = .ok (labelled, entries) ∧
      labelled.placedLabels = [⟨5⟩, ⟨4⟩, ⟨6⟩] ∧
      (labelled.placedLabels.filter fun label =>
        !([⟨4⟩] : List Label).contains label).Nodup := by
  obtain ⟨labelled, entries, attached, _, _, new, _⟩ := @attach_places_scopes
    ⟨1, 2, #[.intConstant 0, .store .int 1, .lineNumber 7, .label ⟨4⟩, .load .int 1,
      .returnValue .int], [], none⟩
    [⟨0, .int, 0, 1, IndexSet.ofList [0, 1]⟩, ⟨0, .float, 2, 3, IndexSet.ofList [2, 3]⟩,
      ⟨1, .int, 3, 5, IndexSet.ofList [3, 4, 5]⟩]
    (by decide) (by decide) (by unfold Scope.WithinCode; decide)
  refine ⟨labelled, entries, attached, ?_, new⟩
  have placed := congrArg (Except.map fun written => written.1.placedLabels) attached
  exact Except.ok.inj (placed.symm.trans (by decide))

end Code

end LocalTable
