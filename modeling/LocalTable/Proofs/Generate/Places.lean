import LocalTable.Proofs.Generate

/-!
# Where entries begin and end

The labels of an entry stand in order, but they may be one and the same.  This is so if
the variable exists at pseudo-instructions only, in a run of them that has a label.

A wide value and a variable in the slot right above it never exist at one position, but
their entries may still overlap: an entry stretches over the positions from the first one
to the last one of its variable, and the other variable may begin in between, where the
first one does not exist.
-/

namespace LocalTable

theorem ValueType.width_of_fieldType? {type : ValueType} {field : FieldType}
    (shown : type.fieldType? = some field)
    (isWide : field = .base .long ∨ field = .base .double) : type.width = 2 := by
  rcases isWide with rfl | rfl <;> cases type <;> first | rfl | cases shown

namespace Scope

variable {code : Code} {labelling : Labelling} {scope other : Scope}
  {entry otherEntry : Entry}

/-- Only pseudo-instructions lie in the scope, and a label stands among these or next to
them. -/
def IsHollow (code : Code) (scope : Scope) : Prop :=
  (∀ index instruction, scope.first ≤ index → index ≤ scope.last →
    code.instructions[index]? = some instruction → instruction.isPseudo = true) ∧
  (Labelling.existing? code.instructions scope.first).isSome = true

/-- The scope begins between the ends of another one, where that one does not exist. -/
def BeginsInGap (scope other : Scope) : Prop :=
  other.first < scope.first ∧ scope.first < other.last ∧
    other.existsAt scope.first = false

/-- The entry has the slot and the type of the scope. -/
def ShownBy (scope : Scope) (entry : Entry) : Prop :=
  entry.slot = scope.slot ∧ scope.type.fieldType? = some entry.type

theorem WrittenAs.shownBy (written : WrittenAs code labelling scope entry) :
    scope.ShownBy entry :=
  ⟨written.slot, written.type⟩

section Places

variable (distinct : code.LabelsDistinct) (valid : labelling.Valid code)
  (inBounds : scope.first ≤ scope.last ∧ scope.last < code.instructions.size)
  (written : WrittenAs code labelling scope entry)

include distinct valid inBounds written

/-- The labels of an entry stand in order, and are the same exactly for a hollow scope. -/
theorem WrittenAs.exists_places :
    ∃ first stop, (code.withLabels labelling).position? entry.first = some first ∧
      (code.withLabels labelling).position? entry.stop = some stop ∧
      first ≤ stop ∧ (first = stop ↔ scope.IsHollow code) := by
  obtain ⟨first, stop, firstMarked, stopMarked, isFirst, isStop⟩ :=
    written.exists_markedAt distinct valid inBounds
  refine ⟨first, stop, isFirst, isStop,
    firstMarked.mono (by omega) (by omega) stopMarked, ?_⟩
  rw [firstMarked.eq_iff valid (by omega) (by omega) stopMarked, IsHollow,
    Option.isSome_iff_ne_none]
  refine and_congr_left fun _ => ⟨fun isRun index instruction after before present => ?_,
    fun hollow index instruction present bounds => ?_⟩
  · exact isRun index instruction present (.inl ⟨after, by omega⟩)
  · exact hollow index instruction (by omega) (by omega) present

/-- Scopes overlap if their entries do. -/
theorem WrittenAs.first_le_last {place : Nat}
    (otherInBounds : other.first ≤ other.last ∧ other.last < code.instructions.size)
    (otherWritten : WrittenAs code labelling other otherEntry)
    (covers : entry.covers (code.withLabels labelling) place = true)
    (otherCovers : otherEntry.covers (code.withLabels labelling) place = true) :
    scope.first ≤ other.last := by
  obtain ⟨first, stop, firstMarked, _, isFirst, isStop⟩ :=
    written.exists_markedAt distinct valid inBounds
  obtain ⟨otherFirst, otherStop, _, stopMarked, isOtherFirst, isOtherStop⟩ :=
    otherWritten.exists_markedAt distinct valid otherInBounds
  simp only [Entry.covers, isFirst, isStop, Bool.and_eq_true, decide_eq_true_eq] at covers
  simp only [Entry.covers, isOtherFirst, isOtherStop, Bool.and_eq_true, decide_eq_true_eq]
    at otherCovers
  by_contra apart
  have ordered := stopMarked.mono (by omega) (by omega) firstMarked
  omega

end Places

/-! ## Variables above wide ones -/

section Cover

variable {flow : Flow} {frames : Frames} {scopes : List Scope} {maxLocals : Nat}
  (cover : IsExactCover flow frames scopes)

include cover

/-- Where a scope of a wide type exists, its slot holds the type. -/
theorem IsExactCover.localAt_of_wide {position : Nat} (member : scope ∈ scopes)
    (isWide : scope.type.width = 2) (there : scope.existsAt position = true) :
    frames.localAt position scope.slot = some scope.type := by
  obtain ⟨inBlock, type, held, isUsable⟩ := cover.onlyUsable member there
  obtain ⟨only, isOnly, fits⟩ := cover.exactlyOne inBlock held isUsable
  have isScope : scope ∈ scopes.filter
      (fun other => other.slot = scope.slot && other.existsAt position) :=
    List.mem_filter.mpr ⟨member, by simp [there]⟩
  rw [isOnly, List.mem_singleton] at isScope
  subst isScope
  rcases fits with rfl | ⟨_, isReference⟩
  · exact held
  · cases isWide.symm.trans (ValueType.isNarrow_of_isReference isReference).width_eq

/-- A wide value and a variable right above it never exist at one position. -/
theorem IsExactCover.not_existsAt_above {position : Nat}
    (halved : Query.AllFrames (Frame.Halved maxLocals) frames) (member : scope ∈ scopes)
    (otherMember : other ∈ scopes) (isWide : scope.type.width = 2)
    (isAbove : other.slot = scope.slot + 1) (there : scope.existsAt position = true) :
    other.existsAt position = false := by
  rw [Bool.eq_false_iff]
  intro otherThere
  obtain ⟨_, type, held, isUsable⟩ := cover.onlyUsable otherMember otherThere
  obtain ⟨frame, isFrame, inFrame⟩ :=
    Frames.localAt_eq_some.mp (cover.localAt_of_wide member isWide there)
  obtain ⟨_, alsoFrame, held⟩ := Frames.localAt_eq_some.mp held
  cases isFrame.symm.trans alsoFrame
  rw [isAbove] at held
  rcases (halved _ _ isFrame).upper inFrame isWide with isTop | isEmpty
  · exact isUsable (Option.some.inj (held.symm.trans isTop))
  · cases isEmpty.symm.trans held

/-- Of two scopes that overlap but exist at no common position, one begins in a gap of the
other. -/
theorem IsExactCover.beginsInGap (member : scope ∈ scopes) (otherMember : other ∈ scopes)
    (apart : ∀ position, scope.existsAt position = true → other.existsAt position = false)
    (overlap : scope.first ≤ other.last) (otherOverlap : other.first ≤ scope.last) :
    other.BeginsInGap scope ∨ scope.BeginsInGap other := by
  obtain ⟨⟨isFirst, _⟩, isLast, _⟩ := cover.ends member
  obtain ⟨⟨isOtherFirst, _⟩, isOtherLast, _⟩ := cover.ends otherMember
  have ne {left right : Nat} (isLeft : scope.existsAt left = true)
      (isRight : other.existsAt right = true) : left ≠ right := by
    rintro rfl
    exact Bool.false_ne_true ((apart left isLeft).symm.trans isRight)
  rcases Nat.lt_or_ge scope.first other.first with before | after
  · refine .inl ⟨before, Nat.lt_of_le_of_ne otherOverlap
      (ne isLast isOtherFirst).symm, ?_⟩
    rw [Bool.eq_false_iff]
    intro there
    exact ne there isOtherFirst rfl
  · refine .inr ⟨Nat.lt_of_le_of_ne after (ne isFirst isOtherFirst).symm,
      Nat.lt_of_le_of_ne overlap (ne isFirst isOtherLast), apart _ isFirst⟩

end Cover

end Scope

/-! ## Generated entries -/

namespace Query

variable {hierarchy : Hierarchy} {owner : BinaryName} {method resulting : Method}
  {code labelled : Code} {entries : List Entry}

/-- What generated entries are written from: scopes that describe the refined frames of
the method exactly. -/
theorem exists_written (hasCode : method.code = some code)
    (generated : (generateEntries owner method : Query hierarchy _).eval =
      .ok (resulting, entries))
    (isLabelled : resulting.code = some labelled) :
    ∃ scopes flow refined labelling,
      (analyze (method.body owner code) : Query hierarchy _).eval = .ok scopes ∧
      Scope.IsExactCover flow refined scopes ∧
      AllFrames (Frame.Halved code.maxLocals) refined ∧ Scope.WithinCode code scopes ∧
      labelled = code.withLabels labelling ∧ labelling.Valid code ∧
      List.Forall₂ (Scope.WrittenAs code labelling)
      (scopes.filter Scope.isWritten) entries := by
  obtain ⟨scopes, _, analyzed, attached, rfl⟩ :=
    (generateEntries_eq_ok hasCode).mp generated
  obtain ⟨_, _, flow, _, refined, stages, rfl⟩ := analyze_eq_ok.mp analyzed
  obtain ⟨size_eq, cover⟩ := stages.isExactCover
  have within := cover.withinCode size_eq
  obtain ⟨labelling, isCode, valid, each⟩ := Code.attach_spec within attached
  exact ⟨_, flow, refined, labelling, analyzed, cover, stages.halved.2, within,
    (Option.some.inj isLabelled).symm.trans isCode, valid, each⟩

/-- In a method whose labels are distinct, every generated entry ends where it begins or
behind it, and where it begins exactly if its variable has a hollow scope. -/
theorem generated_entries_run_forward (hasCode : method.code = some code)
    (distinct : code.LabelsDistinct)
    (generated : (generateEntries owner method : Query hierarchy _).eval =
      .ok (resulting, entries))
    (isLabelled : resulting.code = some labelled) :
    ∃ scopes, (analyze (method.body owner code) : Query hierarchy _).eval = .ok scopes ∧
      List.Forall₂
        (fun scope entry => Scope.ShownBy scope entry ∧
          ∃ first stop, labelled.position? entry.first = some first ∧
            labelled.position? entry.stop = some stop ∧ first ≤ stop ∧
            (first = stop ↔ scope.IsHollow code))
        (scopes.filter Scope.isWritten) entries := by
  obtain ⟨scopes, _, _, labelling, analyzed, _, _, within, rfl, valid, each⟩ :=
    exists_written hasCode generated isLabelled
  refine ⟨scopes, analyzed, ?_⟩
  rw [List.forall₂_iff_zip] at each ⊢
  refine ⟨each.1, fun {scope entry} paired => ?_⟩
  have inBounds := within scope (List.mem_of_mem_filter (List.of_mem_zip paired).1)
  have written := each.2 paired
  exact ⟨written.shownBy, written.exists_places distinct valid inBounds⟩

/-- A store right before two labels, the second one of which is also jumped to. -/
def hollowCode : Code :=
  { maxStack := 1
    maxLocals := 1
    instructions :=
      #[.pushNull, .branchNull .eq ⟨0⟩, .intConstant 0, .store .int 0, .label ⟨1⟩,
      .label ⟨0⟩, .returnVoid]
    handlers := []
    table := none }

def hollowMethod : Method :=
  { name := ⟨"hollow", by decide⟩
    descriptor := ⟨[], none⟩
    access := ⟨8⟩
    code := some hollowCode
    parameterNames := none }

/-- The variable exists at the first label only. -/
def hollowScope : Scope :=
  ⟨0, .boolean, 4, 4, .ofList [4]⟩

theorem analyze_hollow :
    (analyze (hollowMethod.body .object hollowCode) : Query ⟨[]⟩ _).eval =
      .ok [hollowScope] := by
  decide +kernel

theorem hollow_entry_runs_forward :
    ∃ resulting labelled entry first stop, hollowCode.LabelsDistinct ∧
      (generateEntries .object hollowMethod : Query ⟨[]⟩ _).eval =
        .ok (resulting, [entry]) ∧
      resulting.code = some labelled ∧ hollowScope.ShownBy entry ∧
      labelled.position? entry.first = some first ∧
      labelled.position? entry.stop = some stop ∧
      hollowScope.IsHollow hollowCode ∧ first = stop := by
  have distinct : hollowCode.LabelsDistinct := by decide
  have generated := (generateEntries_eq_ok rfl).mpr ⟨_, _, analyze_hollow, rfl, rfl⟩
  obtain ⟨scopes, analyzed, each⟩ :=
    generated_entries_run_forward rfl distinct generated rfl
  cases analyze_hollow.symm.trans analyzed
  have isHollow : hollowScope.IsHollow hollowCode := by
    refine ⟨fun index instruction after before present => ?_, rfl⟩
    cases Nat.le_antisymm before after
    cases present
    rfl
  obtain ⟨⟨shown, first, stop, isFirst, isStop, _, same⟩, _⟩ := List.forall₂_cons.mp each
  exact ⟨_, _, _, first, stop, distinct, generated, rfl, shown, isFirst, isStop, isHollow,
    same.mpr isHollow⟩

/-- The entry of the hollow variable begins and ends at the same label. -/
theorem hollow_entry_is_empty :
    ∃ resulting labelled entry, hollowCode.LabelsDistinct ∧
      (generateEntries .object hollowMethod : Query ⟨[]⟩ _).eval =
        .ok (resulting, [entry]) ∧
      resulting.code = some labelled ∧ entry.first = entry.stop := by
  have distinct : hollowCode.LabelsDistinct := by decide
  exact ⟨_, _, _, distinct,
    (generateEntries_eq_ok rfl).mpr ⟨_, _, analyze_hollow, rfl, rfl⟩, rfl, rfl⟩

/-- In a method whose labels are distinct, take an entry of a `long` or a `double` and
one in the slot right above it.  Their variables exist at no common position.  If the
entries overlap, then one of the variables begins in a gap of the other. -/
theorem wide_entries_overlap_in_gaps (hasCode : method.code = some code)
    (distinct : code.LabelsDistinct)
    (generated : (generateEntries owner method : Query hierarchy _).eval =
      .ok (resulting, entries))
    (isLabelled : resulting.code = some labelled) :
    ∃ scopes, (analyze (method.body owner code) : Query hierarchy _).eval = .ok scopes ∧
      List.Forall₂ Scope.ShownBy (scopes.filter Scope.isWritten) entries ∧
      ∀ lower wide upper narrow,
        (lower, wide) ∈ (scopes.filter Scope.isWritten).zip entries →
        (upper, narrow) ∈ (scopes.filter Scope.isWritten).zip entries →
        wide.type = .base .long ∨ wide.type = .base .double →
        narrow.slot = wide.slot + 1 →
        (∀ position, lower.existsAt position = true → upper.existsAt position = false) ∧
        ∀ place, wide.covers labelled place = true → narrow.covers labelled place = true →
          upper.BeginsInGap lower ∨ lower.BeginsInGap upper := by
  obtain ⟨scopes, _, _, labelling, analyzed, cover, halved, within, rfl, valid, each⟩ :=
    exists_written hasCode generated isLabelled
  refine ⟨scopes, analyzed, each.imp fun _ _ => Scope.WrittenAs.shownBy, ?_⟩
  intro lower wide upper narrow lowerPaired upperPaired isWide isAbove
  have lowerMember := List.mem_of_mem_filter (List.of_mem_zip lowerPaired).1
  have upperMember := List.mem_of_mem_filter (List.of_mem_zip upperPaired).1
  have lowerWritten := (List.forall₂_iff_zip.mp each).2 lowerPaired
  have upperWritten := (List.forall₂_iff_zip.mp each).2 upperPaired
  have lowerWide := ValueType.width_of_fieldType? lowerWritten.type isWide
  have slot_eq : upper.slot = lower.slot + 1 := by
    rw [← upperWritten.slot, isAbove, lowerWritten.slot]
  have apart (position : Nat) (there : lower.existsAt position = true) :
      upper.existsAt position = false :=
    cover.not_existsAt_above halved lowerMember upperMember lowerWide slot_eq there
  refine ⟨apart, fun place covers otherCovers => ?_⟩
  have lowerBounds := within lower lowerMember
  have upperBounds := within upper upperMember
  exact cover.beginsInGap lowerMember upperMember apart
    (lowerWritten.first_le_last distinct valid lowerBounds upperBounds upperWritten covers
      otherCovers)
    (upperWritten.first_le_last distinct valid upperBounds lowerBounds
      lowerWritten otherCovers covers)

/-- A `long` parameter, whose upper half is stored over on a path that does not come
back. -/
def partingCode : Code :=
  { maxStack := 1
    maxLocals := 2
    instructions :=
      #[.pushNull, .branchNull .eq ⟨0⟩, .intConstant 0, .store .int 1, .returnVoid,
      .label ⟨0⟩, .returnVoid]
    handlers := []
    table := none }

def partingMethod : Method :=
  { name := ⟨"parting", by decide⟩
    descriptor := ⟨[.base .long], none⟩
    access := ⟨8⟩
    code := some partingCode
    parameterNames := none }

def partingFlow : Flow :=
  ⟨.ofList [0, 2, 5], .ofList [1, 4, 6], #[[], [2, 5], [], [], [], [], []],
    #[[], [], [1], [], [], [1], []], []⟩

/-- The refined frames: the parameter is there but behind the store. -/
def partingFrames : Frames :=
  #[parameter [], parameter [.null], parameter [], parameter [.int],
    some ⟨#[none, some .boolean], [], 1, 2, false⟩, parameter [], parameter []]
where
  parameter (stack : List ValueType) : Option Frame :=
    some ⟨#[some .long, some .top], stack.map fun type =>
      .anonymous (some type), 1, 2, false⟩

def partingLong : Scope :=
  ⟨0, .long, 0, 6, .ofList [0, 1, 2, 3, 5, 6]⟩

def partingFlag : Scope :=
  ⟨1, .boolean, 4, 4, .ofList [4]⟩

theorem analyze_parting :
    (analyze (partingMethod.body .object partingCode) : Query ⟨[]⟩ _).eval =
      .ok [partingLong, partingFlag] := by
  have staged : (do
      let branches ← ofExcept (Flow.ofCode partingCode)
      let computed ← computeFrames (partingMethod.body .object partingCode) branches
      let flow := (computed.2.protect partingCode.instructions).closeBlocks
      let liveness := (Liveness.compute partingCode.instructions flow computed.1 2).1
      let refined ← refine (partingMethod.body .object partingCode) flow
        (computed.1.trim flow liveness)
      return (flow, refined) : Query ⟨[]⟩ _).eval = .ok (partingFlow, partingFrames) := by
    decide +kernel
  obtain ⟨branches, built, staged⟩ := eval_bind_eq_ok.mp staged
  obtain ⟨⟨frames, completed⟩, computed, staged⟩ := eval_bind_eq_ok.mp staged
  obtain ⟨refined, isRefined, staged⟩ := eval_bind_eq_ok.mp staged
  rw [eval_ofExcept] at built
  obtain ⟨flow_eq, rfl⟩ := Prod.mk.inj (Except.ok.inj staged)
  have separated : Scope.separate (Scope.merged partingFlow partingFrames 2) =
      [partingLong, partingFlag] := by
    decide +kernel
  have isBuilt : Scope.build partingFlow partingFrames 2 =
      [partingLong, partingFlag] := by
    rw [Scope.build, separated]
    exact List.mergeSort_of_pairwise (by decide)
  refine analyze_eq_ok.mpr ⟨branches, completed, _, frames, partingFrames,
    ⟨built, computed, rfl, isRefined⟩, ?_⟩
  exact (congrArg (Scope.build · partingFrames 2) flow_eq).trans isBuilt

/-- The flag begins in the gap that the parameter has there, and the entries overlap. -/
theorem parting_entries_overlap_in_gap :
    ∃ resulting labelled wide narrow, partingCode.LabelsDistinct ∧
      (generateEntries .object partingMethod : Query ⟨[]⟩ _).eval =
        .ok (resulting, [wide, narrow]) ∧
      resulting.code = some labelled ∧ wide.type = .base .long ∧
      narrow.slot = wide.slot + 1 ∧
      (∃ place, wide.covers labelled place = true ∧ narrow.covers labelled place = true) ∧
      (∀ position, partingLong.existsAt position = true →
        partingFlag.existsAt position = false) ∧
      (partingFlag.BeginsInGap partingLong ∨ partingLong.BeginsInGap partingFlag) := by
  have distinct : partingCode.LabelsDistinct := by decide
  have generated := (generateEntries_eq_ok rfl).mpr ⟨_, _, analyze_parting, rfl, rfl⟩
  obtain ⟨scopes, analyzed, _, overlap⟩ :=
    wide_entries_overlap_in_gaps rfl distinct generated rfl
  cases analyze_parting.symm.trans analyzed
  obtain ⟨apart, inGap⟩ :=
    overlap partingLong _ partingFlag _ (.head _) (.tail _ (.head _))
    (.inl rfl) rfl
  exact ⟨_, _, _, _, distinct, generated, rfl, rfl, rfl, ⟨5, by decide, by decide⟩, apart,
    inGap 5 (by decide) (by decide)⟩

/-- The entries of the parameter and the flag above it overlap. -/
theorem parting_entries_overlap :
    ∃ resulting labelled wide narrow place, partingCode.LabelsDistinct ∧
      (generateEntries .object partingMethod : Query ⟨[]⟩ _).eval =
        .ok (resulting, [wide, narrow]) ∧
      resulting.code = some labelled ∧ wide.type = .base .long ∧
      narrow.slot = wide.slot + 1 ∧
      wide.covers labelled place = true ∧ narrow.covers labelled place = true := by
  have distinct : partingCode.LabelsDistinct := by decide
  refine ⟨_, _, _, _, 5, distinct,
    (generateEntries_eq_ok rfl).mpr ⟨_, _, analyze_parting, rfl, rfl⟩, rfl,
      rfl, rfl, ?_, ?_⟩
  · decide
  · decide

end Query

end LocalTable
