import LocalTable.Proofs.Generate
import LocalTable.Proofs.Naming

/-!
# Processed methods

A method that is processed keeps everything but its table and the names of its variables
and parameters; its code gets more labels at most.  If processing fails, it does so
before the first change: the analysis can fail, and labels can run out before they are
placed, but naming, which comes last, cannot fail.

A complete table keeps its entries.
-/

namespace LocalTable

/-! ## What stays of a method -/

namespace Code

/-- The second code is the first one with more labels and perhaps another table.  The
labels of the first one keep the real instructions behind them. -/
structure OnlyLabelled (before after : Code) : Prop where
  maxStack_eq : after.maxStack = before.maxStack
  maxLocals_eq : after.maxLocals = before.maxLocals
  handlers_eq : after.handlers = before.handlers
  instructions_eq : after.instructions.toList.filter
    (fun instruction => !before.lacks instruction) = before.instructions.toList
  realAfter_eq : ∀ label ∈ before.placedLabels,
    after.realAfter? label = (before.realAfter? label).bind (before.placeIn? after)

variable {code before middle after : Code}

theorem onlyLabelled_withLabels {labelling : Labelling} (distinct : code.LabelsDistinct)
    (valid : labelling.Valid code) : code.OnlyLabelled (code.withLabels labelling) :=
  ⟨rfl, rfl, rfl, filter_withLabels valid, fun _ => realAfter?_withLabels distinct valid⟩

theorem onlyLabelled_refl (distinct : code.LabelsDistinct) : code.OnlyLabelled code := by
  have same : code.withLabels ⟨code.freshLabel, []⟩ = code := by
    have listed := @List.map_eq_flatMap _ _ Prod.fst code.instructions.toList.zipIdx
    rw [List.zipIdx_map_fst] at listed
    simp [withLabels, Labelling.insertInto, ← listed]
  have only := onlyLabelled_withLabels distinct (Labelling.valid_start code)
  rwa [same] at only

theorem OnlyLabelled.retable (only : before.OnlyLabelled middle)
    (same : after = { middle with table := after.table }) :
    before.OnlyLabelled after := by
  rw [same]
  exact ⟨only.maxStack_eq, only.maxLocals_eq, only.handlers_eq, only.instructions_eq,
    only.realAfter_eq⟩

end Code

theorem rel_trans {α : Type} {R S T : α → α → Prop} {left middle right : Option α}
    (first : Option.Rel R left middle) (second : Option.Rel S middle right)
    (composed : ∀ {left middle right}, R left middle → S middle right → T left right) :
    Option.Rel T left right := by
  cases first with
  | none =>
      cases second
      exact .none
  | some holds =>
      cases second with
      | some follows => exact .some (composed holds follows)

theorem rel_of_forall {α : Type} {R : α → α → Prop} {option : Option α}
    (each : ∀ value, option = some value → R value value) :
    Option.Rel R option option := by
  cases option with
  | none => exact .none
  | some value => exact .some (each value rfl)

namespace Method

variable {method before middle after : Method}

/-- The second method is the first one with another table, more labels and other names of
parameters. -/
structure OnlyTabled (before after : Method) : Prop where
  name_eq : after.name = before.name
  descriptor_eq : after.descriptor = before.descriptor
  access_eq : after.access = before.access
  code : Option.Rel Code.OnlyLabelled before.code after.code
  recorded : Option.Rel (fun old new => new.length = old.length) before.parameterNames
    after.parameterNames

theorem onlyTabled_refl (distinct : ∀ code, method.code = some code →
      code.LabelsDistinct) :
    method.OnlyTabled method :=
  ⟨rfl, rfl, rfl, rel_of_forall fun code hasCode =>
    Code.onlyLabelled_refl (distinct code hasCode),
    rel_of_forall fun _ _ => rfl⟩

theorem OnlyTabled.retable (only : before.OnlyTabled middle)
    (retables : middle.Retables after) :
    before.OnlyTabled after := by
  refine ⟨?_, ?_, ?_, rel_trans only.code retables.code .retable,
    rel_trans only.recorded retables.recorded fun first second => second.trans first⟩
  · rw [retables.rest]
    exact only.name_eq
  · rw [retables.rest]
    exact only.descriptor_eq
  · rw [retables.rest]
    exact only.access_eq

theorem exists_table (hasTable : method.hasTable = true) :
    ∃ code entries, method.code = some code ∧ code.table = some entries := by
  obtain ⟨code, hasCode, isTable⟩ := (Option.any_eq_true _ _).mp hasTable
  obtain ⟨entries, isTable⟩ := Option.isSome_iff_exists.mp isTable
  exact ⟨code, entries, hasCode, isTable⟩

theorem retables_refl (method : Method) : method.Retables method :=
  ⟨rfl, rel_of_forall fun _ _ => rfl, rel_of_forall fun _ _ => rfl⟩

theorem retables_withTable (method : Method) (entries : List Entry) :
    method.Retables (method.withTable entries) := by
  refine ⟨rfl, ?_, rel_of_forall fun _ _ => rfl⟩
  unfold withTable
  cases method.code with
  | none => exact .none
  | some code => exact .some rfl

theorem retables_prune (method : Method) : method.Retables method.prune.1 := by
  unfold prune
  cases hasCode : method.code with
  | none => exact retables_refl method
  | some code =>
      cases hasTable : code.table with
      | none =>
          dsimp only
          rw [hasTable]
          exact retables_refl method
      | some entries =>
          dsimp only
          rw [hasTable]
          refine ⟨rfl, ?_, rel_of_forall fun _ _ => rfl⟩
          rw [hasCode]
          exact .some rfl

end Method

/-! ## Steps -/

namespace Edit

variable {hierarchy : Hierarchy} {owner : BinaryName} {settings : Settings}
  {method : Method}

theorem pruneEntries_yields (method : Method) :
    (pruneEntries : Edit hierarchy Nat).Yields method (.ok method.prune.2)
      method.prune.1 := by
  refine yields_get.bind ?_
  generalize method.prune = outcome
  obtain ⟨pruned, removed⟩ := outcome
  refine yields_set.bind ?_
  dsimp only
  split
  · exact (yields_tell _).bind (yields_pure _)
  · exact yields_pure _

theorem nameTable_yields_of_untabled (settings : Settings) (generated : Bool)
    (untabled : method.hasTable = false) :
    (nameTable settings generated : Edit hierarchy Bool).Yields method
      (.ok generated) method := by
  refine yields_get.bind ?_
  rw [untabled]
  exact yields_pure generated

theorem nameTable_yields_of_tabled {generated : Bool} {after : Method}
    (tabled : method.hasTable = true)
    (named : (nameVariables settings generated : Edit hierarchy Unit).Yields method
      (.ok ()) after) :
    (nameTable settings generated : Edit hierarchy Bool).Yields method
      (.ok (generated || settings.obfuscateNames)) after := by
  refine yields_get.bind ?_
  rw [tabled]
  exact named.bind (yields_pure _)

/-- Naming does not fail. -/
theorem nameTable_yields (settings : Settings) (generated : Bool) (method : Method) :
    ∃ changed after, (nameTable settings generated : Edit hierarchy Bool).Yields method
      (.ok changed) after ∧ method.Retables after := by
  cases tabled : method.hasTable with
  | false =>
      exact ⟨generated, method, nameTable_yields_of_untabled settings generated tabled,
        method.retables_refl⟩
  | true =>
      obtain ⟨code, entries, hasCode, isTable⟩ := Method.exists_table tabled
      obtain ⟨choices, chosen⟩ :=
        @Method.exists_chooseNames method settings generated entries []
        nofun entries.zipIdx
      obtain ⟨names, _, named⟩ := nameVariables_yields hasCode isTable chosen
      exact ⟨_, _, nameTable_yields_of_tabled tabled named,
        Method.retables_withNames hasCode names⟩

/-- Why no table is generated: the analysis of the code fails, or its labels run out. -/
def Thwarts (hierarchy : Hierarchy) (owner : BinaryName) (method : Method) (code : Code)
    (error : Error) : Prop :=
  (Query.analyze (method.body owner code) : Query hierarchy _).eval = .error error ∨
    error = .outOfLabels ∧ ¬ code.HasRoom

/-- A table is generated as a whole, or the method is left alone. -/
theorem generateTable_yields (owner : BinaryName) (settings : Settings)
    (method : Method) :
    (∃ code error, method.code = some code ∧ Thwarts hierarchy owner method code error ∧
      (generateTable owner settings : Edit hierarchy Unit).Yields method
        (.error error) method) ∨
    ∃ after, (generateTable owner settings : Edit hierarchy Unit).Yields method
      (.ok ()) after ∧
      ((∀ code, method.code = some code → code.LabelsDistinct) →
        method.OnlyTabled after) := by
  have finishes {labelled : Method} {entries : List Entry}
      (only : (∀ code, method.code = some code → code.LabelsDistinct) →
        method.OnlyTabled labelled)
      (generated : (generateEntries owner : Edit hierarchy _).Yields method
        (.ok entries) labelled) :
      ∃ after, (generateTable owner settings : Edit hierarchy Unit).Yields method
        (.ok ()) after ∧
        ((∀ code, method.code = some code → code.LabelsDistinct) →
            method.OnlyTabled after) := by
    have tabled distinct := (only distinct).retable (labelled.retables_withTable entries)
    cases removes : settings.removeInvalidEntries with
    | false =>
        refine ⟨labelled.withTable entries, yields_get.bind ((yields_tell _).bind
          (generated.bind ((yields_tell _).bind ((yields_modify _).bind ?_)))), tabled⟩
        rw [removes]
        exact yields_pure ()
    | true =>
        refine ⟨(labelled.withTable entries).prune.1,
          yields_get.bind ((yields_tell _).bind
          (generated.bind ((yields_tell _).bind ((yields_modify _).bind ?_)))),
          fun distinct => (tabled distinct).retable (Method.retables_prune _)⟩
        rw [removes]
        exact (pruneEntries_yields _).bind (yields_pure ())
  have fails {error : Error}
      (failed : (generateEntries owner : Edit hierarchy _).Yields method
        (.error error) method) :
      (generateTable owner settings : Edit hierarchy Unit).Yields method
          (.error error) method :=
    yields_get.bind ((yields_tell _).bind failed.bind_error)
  rcases Option.eq_none_or_eq_some method.code with noCode | ⟨code, hasCode⟩
  · have generated : (generateEntries owner : Edit hierarchy _).Yields method
        (.ok []) method := by
      refine yields_get.bind ?_
      rw [noCode]
      exact yields_pure []
    exact .inr (finishes Method.onlyTabled_refl generated)
  · cases analyzed :
        (Query.analyze (method.body owner code) : Query hierarchy _).eval with
    | error error =>
        exact .inl ⟨code, error, hasCode, .inl analyzed,
          fails (Query.generateEntries_yields_error hasCode analyzed)⟩
    | ok scopes =>
        cases attached : code.attach scopes with
        | error error =>
            refine .inl ⟨code, error, hasCode,
              .inr ⟨Code.outOfLabels_of_attach attached, ?_⟩,
                fails (Query.generateEntries_yields_outOfLabels hasCode
                  analyzed attached)⟩
            intro room
            obtain ⟨_, enough⟩ :=
              Code.exists_attach (Query.withinCode_analyze analyzed) room
            cases attached.symm.trans enough
        | ok written =>
            refine .inr (finishes (fun distinct => ?_)
              (Query.generateEntries_yields hasCode analyzed attached))
            obtain ⟨labelling, valid, labelled⟩ := Code.attach_eq_withLabels attached
            refine ⟨rfl, rfl, rfl, ?_, rel_of_forall fun _ _ => rfl⟩
            rw [hasCode, labelled]
            exact .some (Code.onlyLabelled_withLabels (distinct code hasCode) valid)

theorem processMethod_yields_of_complete {outcome : Except Error Bool} {after : Method}
    (complete : method.isComplete = true)
    (named : (nameTable settings false : Edit hierarchy Bool).Yields method
      outcome after) :
    (processMethod owner settings : Edit hierarchy Bool).Yields method outcome after := by
  refine yields_get.bind ?_
  rw [complete]
  exact named

theorem processMethod_yields_of_incomplete {outcome : Except Error Bool} {after : Method}
    (incomplete : method.isComplete = false)
    (tabled : (do generateTable owner settings; nameTable settings true :
      Edit hierarchy Bool).Yields method outcome after) :
    (processMethod owner settings : Edit hierarchy Bool).Yields method outcome after := by
  refine yields_get.bind ?_
  rw [incomplete]
  exact tabled

/-- A method is processed as a whole or left alone. -/
theorem processMethod_yields (owner : BinaryName) (settings : Settings)
    (method : Method) :
    (∃ code error, method.isComplete = false ∧ method.code = some code ∧
      Thwarts hierarchy owner method code error ∧
      (processMethod owner settings : Edit hierarchy Bool).Yields method
        (.error error) method) ∨
    ∃ changed after,
      (processMethod owner settings : Edit hierarchy Bool).Yields method
        (.ok changed) after ∧
      ((∀ code, method.code = some code → code.LabelsDistinct) →
        method.OnlyTabled after) := by
  cases complete : method.isComplete with
  | true =>
      obtain ⟨changed, after, named, retables⟩ := nameTable_yields settings false method
      exact .inr ⟨changed, after, processMethod_yields_of_complete complete named,
        fun distinct => (Method.onlyTabled_refl distinct).retable retables⟩
  | false =>
      rcases generateTable_yields owner settings method with
        ⟨code, error, hasCode, thwarts, failed⟩ | ⟨tabled, generated, only⟩
      · exact .inl ⟨code, error, rfl, hasCode, thwarts,
          processMethod_yields_of_incomplete complete failed.bind_error⟩
      · obtain ⟨changed, after, named, retables⟩ := nameTable_yields settings true tabled
        exact .inr ⟨changed, after,
          processMethod_yields_of_incomplete complete (generated.bind named),
          fun distinct => (only distinct).retable retables⟩

/-- Processing a method fails only if the analysis of its code does, or if labels run out,
and then leaves the method exactly as it is.  Otherwise it changes the table and the names
only, with new labels in the code.  Labels do not run out where there is room for one at
every boundary of the code. -/
theorem processing_is_atomic (owner : BinaryName) (settings : Settings) (method : Method)
    (distinct : ∀ code, method.code = some code → code.LabelsDistinct) :
    (∃ code error, method.isComplete = false ∧ method.code = some code ∧
      ((Query.analyze (method.body owner code) : Query hierarchy _).eval = .error error ∨
        error = .outOfLabels ∧ ¬ code.HasRoom) ∧
      ((processMethod owner settings).runOn method : Query hierarchy _).eval =
        .ok (.error error, method)) ∨
    ∃ changed after, ((processMethod owner settings).runOn method :
      Query hierarchy _).eval =
      .ok (.ok changed, after) ∧ method.OnlyTabled after := by
  rcases processMethod_yields owner settings method with
    failed | ⟨changed, after, processed, only⟩
  · exact .inl failed
  · exact .inr ⟨changed, after, processed, only distinct⟩

/-- A loop that begins at a label. -/
def loopingCode : Code :=
  { maxStack := 1
    maxLocals := 2
    instructions :=
      #[.label ⟨3⟩, .load .float 0, .store .float 1, .load .float 1, .pop, .goto ⟨3⟩]
    handlers := []
    table := none }

def loopingMethod : Method :=
  { name := ⟨"loop", by decide⟩
    descriptor := ⟨[.base .float], none⟩
    access := ⟨8⟩
    code := some loopingCode
    parameterNames := some [some ⟨"p", by decide⟩] }

/-- The analysis of the loop succeeds, so the method gets a table, and keeps the rest. -/
theorem looping_processing_is_atomic :
    (∀ code, loopingMethod.code = some code → code.LabelsDistinct) ∧
      ∃ changed after, ((processMethod .object {}).runOn loopingMethod :
        Query ⟨[]⟩ _).eval =
        .ok (.ok changed, after) ∧ loopingMethod.OnlyTabled after := by
  have distinct : ∀ code, loopingMethod.code = some code → code.LabelsDistinct := by
    rintro _ ⟨⟩
    decide
  refine ⟨distinct,
    (processing_is_atomic .object {} loopingMethod distinct).resolve_left ?_⟩
  obtain ⟨scopes, analyzed⟩ :
      ∃ scopes, (Query.analyze (loopingMethod.body .object loopingCode) :
      Query ⟨[]⟩ _).eval = .ok scopes := Query.exists_analyze (by decide +kernel)
  rintro ⟨_, error, _, ⟨⟩, failed | ⟨_, crowded⟩, _⟩
  · cases failed.symm.trans analyzed
  · exact crowded (by decide)

/-- Code that uses the last two labels, and needs another one at its end. -/
def crowdedCode : Code :=
  { maxStack := 1
    maxLocals := 1
    instructions := #[.label ⟨4294967294⟩, .load .int 0, .branchZero .eq ⟨4294967295⟩,
      .label ⟨4294967295⟩, .returnVoid]
    handlers := []
    table := none }

def crowdedMethod : Method :=
  { name := ⟨"crowded", by decide⟩
    descriptor := ⟨[.base .int], none⟩
    access := ⟨8⟩
    code := some crowdedCode
    parameterNames := none }

/-- A method whose code can be analyzed is not processed if its labels run out. -/
theorem crowded_processing_breaks_down :
    crowdedCode.LabelsDistinct ∧
      (∃ scopes, (Query.analyze (crowdedMethod.body .object crowdedCode) :
        Query ⟨[]⟩ _).eval = .ok scopes) ∧
      ((processMethod .object {}).runOn crowdedMethod : Query ⟨[]⟩ _).eval =
        .ok (.error .outOfLabels, crowdedMethod) ∧
      Error.outOfLabels.isBreakdown = true := by
  obtain ⟨scopes, analyzed⟩ :
      ∃ scopes, (Query.analyze (crowdedMethod.body .object crowdedCode) :
      Query ⟨[]⟩ _).eval = .ok scopes := Query.exists_analyze (by decide +kernel)
  have generated := Query.generateEntries_yields_outOfLabels rfl analyzed
    (Code.attach_of_lastLabel scopes (by decide +kernel))
  have tabled : (generateTable .object {} : Edit ⟨[]⟩ Unit).Yields crowdedMethod
      (.error .outOfLabels) crowdedMethod :=
    yields_get.bind ((yields_tell _).bind generated.bind_error)
  have processed : (processMethod .object {} : Edit ⟨[]⟩ Bool).Yields crowdedMethod
      (.error .outOfLabels) crowdedMethod :=
    processMethod_yields_of_incomplete (by decide) tabled.bind_error
  exact ⟨by decide, ⟨scopes, analyzed⟩, processed, rfl⟩

end Edit

/-! ## Complete tables -/

namespace Query

variable {hierarchy : Hierarchy} {owner : BinaryName} {settings : Settings}
  {method : Method}

/-- Unless all names are replaced, a method with a complete table keeps everything but
recorded names of parameters, which follow the table, and other names than `this` in the
slot of the receiver. -/
theorem complete_tables_keep_entries (complete : method.isComplete = true)
    (plain : settings.obfuscateNames = false) :
    ∃ kept, (processMethod owner method settings : Query hierarchy _).eval =
      .ok (kept, false) ∧
      kept = { method with code := kept.code, parameterNames := kept.parameterNames } ∧
      (method.hasTable = false → kept = method) ∧
      ∀ code entries, method.code = some code → code.table = some entries →
        ∃ table, kept.code = some { code with table := some table } ∧
          List.Forall₂ (fun old new => new = { old with name := new.name } ∧
            (method.isStatic = true ∨ old.slot ≠ 0 ∨ old.name = .this →
              new.name = old.name))
            entries table ∧
          Option.Rel (Method.RecordsTable method.parameterSlots table)
            method.parameterNames kept.parameterNames := by
  cases tabled : method.hasTable with
  | false =>
      have named : (Edit.nameTable settings false : Edit hierarchy _).Yields method _ _ :=
        Edit.nameTable_yields_of_untabled settings false tabled
      refine ⟨method, (Edit.processMethod_yields_of_complete complete named).eval_apply,
        rfl, fun _ => rfl, fun code entries hasCode isTable => ?_⟩
      simp [Method.hasTable, hasCode, isTable] at tabled
  | true =>
      obtain ⟨code, entries, hasCode, isTable⟩ := Method.exists_table tabled
      obtain ⟨choices, chosen, names_eq⟩ :=
        @Method.chooseNames_of_plain method settings entries []
        plain entries.zipIdx
      obtain ⟨_, isPlain, written⟩ :=
        @Edit.nameVariables_yields hierarchy _ _ _ _ _ _ hasCode isTable chosen
      obtain rfl := isPlain rfl
      have named := Edit.nameTable_yields_of_tabled tabled written
      rw [plain] at named
      have table_eq : entries.zipWith (fun entry name => { entry with name := name })
          (choices.map Naming.Choice.name) =
            entries.map fun entry => { entry with name := method.keptName entry } := by
        rw [names_eq, ← Function.comp_def method.keptName, ← List.map_map,
          List.zipIdx_map_fst, List.zipWith_map_right, List.zipWith_self]
      refine ⟨_, (Edit.processMethod_yields_of_complete complete named).eval_apply,
        rfl, nofun, fun other others isCode isEntries => ?_⟩
      cases hasCode.symm.trans isCode
      cases isTable.symm.trans isEntries
      refine ⟨_, rfl, ?_, Method.recordsTable_recordNames _ _⟩
      rw [table_eq, List.forall₂_map_right_iff, List.forall₂_same]
      exact fun entry _ => ⟨rfl, Method.keptName_eq⟩

/-- A method with an `int` parameter whose name is recorded, and with a table. -/
def tabledMethod (access : MethodAccess) (entries : List Entry) : Method :=
  { name := ⟨"tabled", by decide⟩
    descriptor := ⟨[.base .int], none⟩
    access := access
    code := some
      { maxStack := 0
        maxLocals := entries.length
        instructions := #[.label ⟨0⟩, .returnVoid, .label ⟨1⟩]
        handlers := []
        table := some entries }
    parameterNames := some [some ⟨"p", by decide⟩] }

/-- The entry of an `int` variable in a slot. -/
def countEntry (slot : Nat) : Entry :=
  ⟨⟨"count", by decide⟩, .base .int, ⟨0⟩, ⟨1⟩, slot⟩

/-- The entry of a receiver. -/
def receiverEntry (name : UnqualifiedName) : Entry :=
  ⟨name, .object .object, ⟨0⟩, ⟨1⟩, 0⟩

/-- The receiver and the parameter of an instance method keep their entries, and the
recorded name of the parameter follows. -/
theorem tabled_method_keeps_entries :
    (tabledMethod ⟨0⟩ [receiverEntry .this, countEntry 1]).isComplete = true ∧
      ({} : Settings).obfuscateNames = false ∧
      ∃ kept code,
        (processMethod .object (tabledMethod ⟨0⟩ [receiverEntry .this, countEntry 1]) {} :
          Query ⟨[]⟩ _).eval = .ok (kept, false) ∧
        kept.code = some code ∧ code.table = some [receiverEntry .this, countEntry 1] ∧
        kept.parameterNames = some [some (countEntry 1).name] := by
  have complete : (tabledMethod ⟨0⟩ [receiverEntry .this, countEntry 1]).isComplete =
      true := by
    decide
  obtain ⟨kept, processed, _, _, tables⟩ :=
    @complete_tables_keep_entries ⟨[]⟩ .object {} _ complete rfl
  obtain ⟨table, hasCode, entries, records⟩ := tables _ _ rfl rfl
  obtain ⟨receiver, _, isReceiver, others, rfl⟩ := List.forall₂_cons_left_iff.mp entries
  obtain ⟨parameter, _, isParameter, none, rfl⟩ := List.forall₂_cons_left_iff.mp others
  cases none
  have receiver_eq : receiver = receiverEntry .this := by
    rw [isReceiver.1, isReceiver.2 (.inr (.inr rfl))]
  have parameter_eq : parameter = countEntry 1 := by
    rw [isParameter.1, isParameter.2 (.inr (.inl (by decide)))]
  rw [receiver_eq, parameter_eq] at hasCode records
  refine ⟨complete, rfl, kept, _, processed, hasCode, rfl, ?_⟩
  generalize kept.parameterNames = recorded at records
  cases records with
  | some follows =>
      have named := follows.named Nat.zero_lt_one rfl rfl
      obtain ⟨name, rfl⟩ := List.length_eq_one_iff.mp follows.length_eq
      exact congrArg (some [·]) (Option.some.inj named)

/-- A recorded name that differs from the name in a complete table is replaced, and so may
be a name in the slot of the receiver. -/
theorem complete_table_changes :
    ((tabledMethod ⟨8⟩ [countEntry 0]).isComplete = true ∧
      ({} : Settings).obfuscateNames = false ∧
      ∃ kept, (processMethod .object (tabledMethod ⟨8⟩ [countEntry 0]) {} :
        Query ⟨[]⟩ _).eval =
        .ok (kept, false) ∧ kept.parameterNames ≠ some [some ⟨"p", by decide⟩]) ∧
    (tabledMethod ⟨0⟩ [receiverEntry ⟨"self", by decide⟩, countEntry 1]).isComplete =
      true ∧
      ∃ kept code, (processMethod .object
          (tabledMethod ⟨0⟩ [receiverEntry ⟨"self", by decide⟩, countEntry 1]) {} :
        Query ⟨[]⟩ _).eval = .ok (kept, false) ∧ kept.code = some code ∧
          code.table ≠ some [receiverEntry ⟨"self", by decide⟩, countEntry 1] :=
  ⟨⟨by decide, rfl, _, rfl, by decide⟩, by decide, _, _, rfl, rfl, by decide⟩

end Query

end LocalTable
