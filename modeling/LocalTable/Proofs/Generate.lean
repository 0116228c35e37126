import Mathlib.Data.List.Pairwise
import LocalTable.Generate
import LocalTable.Proofs.Edit
import LocalTable.Proofs.Frames.Origin
import LocalTable.Proofs.Refine.Halves
import LocalTable.Proofs.Scope.Build
import LocalTable.Proofs.Table

/-!
# Generated tables

The stages together: a local that an instruction loads is live, so it is trimmed
from no frame that it is loaded at; refining leaves a value in its place; the scopes
describe the refined frames exactly; and every scope of a value is written as an
entry around its instructions.  So a load has exactly one entry for its local.
-/

namespace LocalTable

/-! ## Entries at an instruction -/

namespace Scope

variable {flow : Flow} {frames : Frames} {scopes : List Scope} {code : Code}

theorem IsExactCover.withinCode (cover : IsExactCover flow frames scopes)
    (size_eq : flow.size = code.instructions.size) : WithinCode code scopes := by
  intro scope member
  obtain ⟨isLeast, isGreatest⟩ := cover.ends member
  refine ⟨isLeast.2 isGreatest.1, ?_⟩
  rw [← size_eq]
  exact (cover.onlyUsable member isGreatest.1).1.1

/-- The scope lies around a position, whether it exists there or not. -/
def spans (slot position : Nat) (scope : Scope) : Bool :=
  scope.slot = slot && (scope.first ≤ position && position ≤ scope.last)

/-- Around a position where a slot holds a value lies exactly one scope of the slot,
and it is written. -/
theorem IsExactCover.filter_spans {position slot : Nat} {type : ValueType}
    (cover : IsExactCover flow frames scopes) (inBlock : flow.InBlock position)
    (held : frames.localAt position slot = some type) (isUsable : type ≠ .top) :
    ∃ scope, (scopes.filter isWritten).filter (spans slot position) = [scope] := by
  obtain ⟨scope, isOnly, fits⟩ := cover.exactlyOne inBlock held isUsable
  obtain ⟨member, isThere⟩ := List.mem_filter.mp (isOnly ▸ List.mem_singleton_self scope)
  simp only [Bool.and_eq_true, decide_eq_true_eq] at isThere
  have spansIt {other : Scope} (isMember : other ∈ scopes)
      (there : other.existsAt position = true) : other.first ≤ position ∧
          position ≤ other.last := by
    obtain ⟨isLeast, isGreatest⟩ := cover.ends isMember
    exact ⟨isLeast.2 there, isGreatest.2 there⟩
  have isWritten : scope.isWritten = true := by
    rcases fits with rfl | ⟨_, isReference⟩
    · exact decide_eq_true isUsable
    · refine decide_eq_true fun isTop => ?_
      rw [isTop] at isReference
      cases isReference
  refine ⟨scope, ?_⟩
  rw [List.filter_filter, ← isOnly]
  refine List.filter_congr fun other isMember => ?_
  rw [Bool.eq_iff_iff]
  simp only [spans, Bool.and_eq_true, decide_eq_true_eq]
  constructor
  · rintro ⟨⟨sameSlot, after, before⟩, _⟩
    -- Another scope of the slot around the position would overlap this one.
    have same : other = scope := by
      by_contra different
      have : Std.Symm fun left right : Scope =>
          left.slot = right.slot → left.last < right.first ∨ right.last < left.first :=
        ⟨fun _ _ apart sameSlot => (apart sameSlot.symm).symm⟩
      have apart := cover.apart.forall isMember member different
        (sameSlot.trans isThere.1.symm)
      have around := spansIt member isThere.2
      omega
    exact ⟨sameSlot, same ▸ isThere.2⟩
  · rintro ⟨sameSlot, there⟩
    have inFilter : other ∈ scopes.filter
        (fun scope => scope.slot = slot && scope.existsAt position) :=
      List.mem_filter.mpr ⟨isMember, by simp [sameSlot, there]⟩
    rw [isOnly, List.mem_singleton] at inFilter
    exact ⟨⟨sameSlot, spansIt isMember there⟩, inFilter ▸ isWritten⟩

end Scope

namespace Code

variable {code labelled : Code} {scopes : List Scope} {entries : List Entry}
  {position slot : Nat} {instruction : Instruction}

/-- As many entries cover the place of a real instruction as scopes lie around it. -/
theorem attach_counts (distinct : code.LabelsDistinct)
    (within : Scope.WithinCode code scopes)
    (found : code.instructions[position]? = some instruction)
    (isReal : instruction.isPseudo = false)
    (attached : code.attach scopes = .ok (labelled, entries)) (slot : Nat) :
    ∃ place, code.placeIn? labelled position = some place ∧
      ((scopes.filter Scope.isWritten).filter (Scope.spans slot position)).length =
        (entries.filter fun entry => entry.slot = slot &&
          entry.covers labelled place).length := by
  obtain ⟨labelling, rfl, valid, each⟩ := attach_spec within attached
  refine ⟨Labelling.place labelling.marker position,
    placeIn?_withLabels valid (Array.getElem?_eq_some_iff.mp found).1, ?_⟩
  have eachWithin := (List.forall₂_and_left _ _).mpr
    ⟨fun scope member => within scope (List.mem_of_mem_filter member), each⟩
  have agree ⦃scope : Scope⦄ ⦃entry : Entry⦄
      (isEntry : (scope.first ≤ scope.last ∧ scope.last < code.instructions.size) ∧
        Scope.WrittenAs code labelling scope entry) :
      scope.spans slot position = true ↔ (entry.slot = slot && entry.covers
        (code.withLabels labelling) (Labelling.place labelling.marker position)) =
            true := by
    obtain ⟨inBounds, written⟩ := isEntry
    simp only [Scope.spans, Bool.and_eq_true, decide_eq_true_eq, written.slot]
    rw [written.covers_iff distinct valid inBounds found isReal]
  exact (List.rel_filter agree eachWithin).length_eq

/-- At a real instruction where a slot holds a value, exactly one entry of the slot
covers the place of the instruction. -/
theorem attach_exactlyOne {flow : Flow} {frames : Frames} {type : ValueType}
    (distinct : code.LabelsDistinct)
    (cover : Scope.IsExactCover flow frames scopes)
    (size_eq : flow.size = code.instructions.size) (inBlock : flow.InBlock position)
    (held : frames.localAt position slot = some type) (isUsable : type ≠ .top)
    (found : code.instructions[position]? = some instruction)
    (isReal : instruction.isPseudo = false)
    (attached : code.attach scopes = .ok (labelled, entries)) :
    ∃ place entry, code.placeIn? labelled position = some place ∧
      entries.filter (fun entry => entry.slot = slot && entry.covers labelled place) =
        [entry] := by
  obtain ⟨place, isPlace, counted⟩ :=
    attach_counts distinct (cover.withinCode size_eq) found isReal attached slot
  obtain ⟨scope, isOnly⟩ := cover.filter_spans inBlock held isUsable
  rw [isOnly] at counted
  obtain ⟨entry, entries_eq⟩ := List.length_eq_one_iff.mp counted.symm
  exact ⟨place, entry, isPlace, entries_eq⟩

end Code

/-! ## The stages -/

namespace Query

variable {hierarchy : Hierarchy} {owner : BinaryName}
  {method resulting : Method} {code : Code} {entries : List Entry}

theorem eval_buildScopes (flow : Flow) (frames : Frames) (maxLocals : Nat) :
    (buildScopes flow frames maxLocals : Query hierarchy _).eval =
      .ok (Scope.build flow frames maxLocals) := by
  have noted (scopes : List Scope) :
      (scopes.forM fun scope => tell (.scopeSplit scope.slot scope.first scope.last) :
        Query hierarchy Unit).eval = .ok () := by
    induction scopes with
    | nil => rfl
    | cons scope rest ih => exact ih
  exact eval_bind_eq_ok.mpr ⟨(), noted _, rfl⟩

/-- What the stages of an analysis hand on: the flow of branches, the frames with the
flow of throws, the completed flow, and the refined frames. -/
structure Stages (hierarchy : Hierarchy) (body : Body) (branches completed flow : Flow)
    (frames refined : Frames) : Prop where
  built : Flow.ofCode body.code = .ok branches
  computed : (computeFrames body branches : Query hierarchy _).eval =
    .ok (frames, completed)
  flow_eq : flow = (completed.protect body.instructions).closeBlocks
  refined : (refine body flow (frames.trim flow
    (Liveness.compute body.instructions flow frames body.code.maxLocals).1) :
      Query hierarchy _).eval = .ok refined

theorem analyze_eq_ok {body : Body} {scopes : List Scope} :
    (analyze body : Query hierarchy _).eval = .ok scopes ↔
      ∃ branches completed flow frames refined,
        Stages hierarchy body branches completed flow frames refined ∧
          Scope.build flow refined body.code.maxLocals = scopes := by
  constructor
  · intro analyzed
    obtain ⟨branches, built, analyzed⟩ := eval_bind_eq_ok.mp analyzed
    obtain ⟨⟨frames, completed⟩, computed, analyzed⟩ := eval_bind_eq_ok.mp analyzed
    obtain ⟨liveness, isLiveness, analyzed⟩ := eval_bind_eq_ok.mp analyzed
    cases isLiveness
    obtain ⟨refined, isRefined, analyzed⟩ := eval_bind_eq_ok.mp analyzed
    rw [eval_buildScopes] at analyzed
    rw [eval_ofExcept] at built
    exact ⟨branches, completed, _, frames, refined, ⟨built, computed, rfl, isRefined⟩,
      Except.ok.inj analyzed⟩
  · rintro ⟨branches, completed, _, frames, refined,
      ⟨built, computed, rfl, isRefined⟩, rfl⟩
    refine eval_bind_eq_ok.mpr ⟨branches, (eval_ofExcept _).trans built, ?_⟩
    refine eval_bind_eq_ok.mpr ⟨(frames, completed), computed, ?_⟩
    refine eval_bind_eq_ok.mpr ⟨_, rfl, ?_⟩
    exact eval_bind_eq_ok.mpr ⟨refined, isRefined, eval_buildScopes ..⟩

/-- An analysis that refines its frames ends with scopes. -/
theorem exists_analyze {body : Body} (passes : (do
      let branches ← ofExcept (Flow.ofCode body.code)
      let computed ← computeFrames body branches
      let flow := (computed.2.protect body.instructions).closeBlocks
      let liveness :=
        (Liveness.compute body.instructions flow computed.1 body.code.maxLocals).1
      let _ ← refine body flow (computed.1.trim flow liveness)
      return () : Query hierarchy _).eval = .ok ()) :
    ∃ scopes, (analyze body : Query hierarchy _).eval = .ok scopes := by
  obtain ⟨branches, built, passes⟩ := eval_bind_eq_ok.mp passes
  obtain ⟨⟨frames, completed⟩, computed, passes⟩ := eval_bind_eq_ok.mp passes
  obtain ⟨refined, isRefined, _⟩ := eval_bind_eq_ok.mp passes
  rw [eval_ofExcept] at built
  exact ⟨_, analyze_eq_ok.mpr
    ⟨branches, completed, _, frames, refined, ⟨built, computed, rfl, isRefined⟩, rfl⟩⟩

/-- If the analysis fails, no label has been placed yet. -/
theorem generateEntries_yields_error {error : Error} (hasCode : method.code = some code)
    (failed : (analyze (method.body owner code) : Query hierarchy _).eval =
      .error error) :
    (Edit.generateEntries owner : Edit hierarchy _).Yields method
      (.error error) method := by
  refine Edit.yields_get.bind ?_
  rw [hasCode]
  exact Edit.Yields.bind_error (Edit.yields_ask_of_eval failed)

/-- If labels run out, none has been placed. -/
theorem generateEntries_yields_outOfLabels {scopes : List Scope} {error : Error}
    (hasCode : method.code = some code)
    (analyzed : (analyze (method.body owner code) : Query hierarchy _).eval = .ok scopes)
    (failed : code.attach scopes = .error error) :
    (Edit.generateEntries owner : Edit hierarchy _).Yields method
      (.error error) method := by
  refine Edit.yields_get.bind ?_
  rw [hasCode]
  refine (Edit.yields_ask_of_eval analyzed).bind (Edit.Yields.bind_error ?_)
  exact Edit.yields_ask_of_eval ((eval_ofExcept _).trans failed)

theorem generateEntries_yields {scopes : List Scope} {labelled : Code}
    (hasCode : method.code = some code)
    (analyzed : (analyze (method.body owner code) : Query hierarchy _).eval = .ok scopes)
    (attached : code.attach scopes = .ok (labelled, entries)) :
    (Edit.generateEntries owner : Edit hierarchy _).Yields method (.ok entries)
      { method with code := some labelled } := by
  refine Edit.yields_get.bind ?_
  rw [hasCode]
  refine (Edit.yields_ask_of_eval analyzed).bind ?_
  refine (Edit.yields_ask_of_eval ((eval_ofExcept _).trans attached)).bind ?_
  exact Edit.yields_set.bind (Edit.yields_pure _)

theorem generateEntries_eq_ok (hasCode : method.code = some code) :
    (generateEntries owner method : Query hierarchy _).eval = .ok (resulting, entries) ↔
      ∃ scopes labelled, (analyze (method.body owner code) : Query hierarchy _).eval =
        .ok scopes ∧
        code.attach scopes = .ok (labelled, entries) ∧
        resulting = { method with code := some labelled } := by
  constructor
  · intro generated
    cases analyzed : (analyze (method.body owner code) : Query hierarchy _).eval with
    | error error =>
        cases generated.symm.trans (generateEntries_yields_error hasCode
          analyzed).eval_apply
    | ok scopes =>
        cases attached : code.attach scopes with
        | error error =>
            cases generated.symm.trans
              (generateEntries_yields_outOfLabels hasCode analyzed attached).eval_apply
        | ok written =>
            cases generated.symm.trans
              (generateEntries_yields hasCode analyzed attached).eval_apply
            exact ⟨scopes, written.1, rfl, attached, rfl⟩
  · rintro ⟨scopes, labelled, analyzed, attached, rfl⟩
    exact (generateEntries_yields hasCode analyzed attached).eval_apply

/-! ## Loads -/

section Stages

variable {body : Body} {branches completed flow : Flow} {frames refined : Frames}
  (stages : Stages hierarchy body branches completed flow frames refined)

include stages

/-- The refined frames have the locals of the method, and no value right above a wide
one. -/
theorem Stages.halved :
    refined.size = frames.size ∧
    AllFrames (Frame.Halved body.code.maxLocals) refined := by
  have shaped := (shaped_computeFrames stages.computed).2
  have trims {liveness : Liveness} :
      frames.TrimmedTo liveness (frames.trim flow liveness) :=
    .trim shaped (.refl _ frames)
  have halved : AllFrames (Frame.Halved body.code.maxLocals) (frames.trim flow
      (Liveness.compute body.instructions flow frames body.code.maxLocals).1) := by
    intro position kept there
    obtain ⟨frame, isOriginal, frameTrims⟩ := trims.exists_original there
    exact frameTrims.halved (shaped _ _ isOriginal)
  obtain ⟨size_eq, refinedHalved⟩ := halved_of_refine halved stages.refined
  exact ⟨size_eq.trans trims.size_eq, refinedHalved⟩

/-- The scopes describe the refined frames exactly. -/
theorem Stages.isExactCover :
    flow.size = body.code.instructions.size ∧
      Scope.IsExactCover flow refined (Scope.build flow refined body.code.maxLocals) := by
  obtain ⟨refinedSize, halved⟩ := stages.halved
  have size_eq := (shaped_computeFrames stages.computed).1
  have ⟨closed, closedSize⟩ :=
    (withThrows_computeFrames stages.built stages.computed).closed
  have flow_eq : flow = (completed.protect body.code.instructions).closeBlocks :=
    stages.flow_eq
  rw [← flow_eq] at closed closedSize
  refine ⟨closedSize, Scope.isExactCover_build closed ?_ ?_⟩
  · rw [refinedSize, size_eq, closedSize, Body.instructions]
  · exact Scope.slotsBelow_of_size fun position frame there =>
      Nat.le_of_eq (halved position frame there).size_eq

omit stages in
/-- An analysis finds scopes inside the code. -/
theorem withinCode_analyze {scopes : List Scope}
    (analyzed : (analyze body : Query hierarchy _).eval = .ok scopes) :
    Scope.WithinCode body.code scopes := by
  obtain ⟨_, _, _, _, _, stages, rfl⟩ := analyze_eq_ok.mp analyzed
  obtain ⟨size_eq, cover⟩ := stages.isExactCover
  exact cover.withinCode size_eq

variable
  (stores : ∀ store kind slot, body.instructions[store]? = some (.store kind slot) →
    frames.localAt (store + 1) slot ≠ some .top)
  (traces : (Scene.ofBody body flow).TracesOperands frames)
  {position slot : Nat} {kind : Kind} {type : ValueType}

include stores traces

/-- Trimming and refining leave the live values of the computed frames in their places. -/
theorem Stages.refinesTo :
    ∃ trimmed, frames.TrimmedTo
        (Liveness.compute body.instructions flow frames body.code.maxLocals).1 trimmed ∧
      Frames.RefinesTo ValueType.Keeps ValueType.Alike
        (Scene.ofBody body flow).SuggestsBooleans frames trimmed refined := by
  have shaped := (shaped_computeFrames stages.computed).2
  have trims {liveness : Liveness} :
      frames.TrimmedTo liveness (frames.trim flow liveness) :=
    .trim shaped (.refl _ frames)
  refine ⟨_, trims, refine_ensures
    (.of_computed shaped trims fun store slot isStore => ?_) traces _ stages.refined⟩
  obtain ⟨instruction, found, stored⟩ := Option.bind_eq_some_iff.mp isStore
  obtain ⟨kind, rfl⟩ := Instruction.exists_kind stored
  exact stores store kind slot found

/-- A local that is loaded holds a value in the refined frames. -/
theorem Stages.usable_of_load
    (found : body.instructions[position]? = some (.load kind slot))
    (held : frames.localAt position slot = some type) (isUsable : type ≠ .top) :
    ∃ kept, refined.localAt position slot = some kept ∧ kept ≠ .top := by
  obtain ⟨trimmed, trims, refines⟩ := stages.refinesTo stores traces
  obtain ⟨sized, shaped⟩ := shaped_computeFrames stages.computed
  have inFrame : frames.Usable slot position := ⟨type, held, isUsable⟩
  have isLive : slot ∈
      (Liveness.compute body.instructions flow frames body.code.maxLocals).1.before
          position :=
    Liveness.mem_compute_of_load sized shaped found inFrame
  have isKept := (trims.localAt_of_live isLive inFrame).trans held
  obtain ⟨last, isLast, keeps⟩ := refines.kept trims isKept
  exact ⟨last, isLast, fun isTop => isUsable (keeps.top_iff.mp isTop)⟩

end Stages

/-- In a method whose labels are distinct, in which no store leaves an upper half in its
own slot, every load of a local that holds a value gets exactly one entry.  This holds
for code without snapshots, and for other code if a value that is compared or combined
as if it were a boolean is narrow wherever stores are found for it: otherwise the stores
may get the type of an upper half, and lose their variable. -/
theorem generated_entries_cover_loads {branches completed : Flow} {frames : Frames}
    {labelled : Code} {position slot : Nat} {kind : Kind} {type : ValueType}
    (hasCode : method.code = some code) (distinct : code.LabelsDistinct)
    (generated : (generateEntries owner method : Query hierarchy _).eval =
      .ok (resulting, entries))
    (isLabelled : resulting.code = some labelled)
    (built : Flow.ofCode code = .ok branches)
    (computed : (computeFrames (method.body owner code) branches :
      Query hierarchy _).eval =
      .ok (frames, completed))
    (stores : ∀ store kind stored, code.instructions[store]? = some (.store kind stored) →
      frames.localAt (store + 1) stored ≠ some .top)
    (traceable : (∀ snapshot, .snapshot snapshot ∉ code.instructions) ∨
      (Scene.ofBody (method.body owner code)
        (completed.protect code.instructions).closeBlocks).TracesOperands frames)
    (found : code.instructions[position]? = some (.load kind slot))
    (held : frames.localAt position slot = some type) (isUsable : type ≠ .top) :
    ∃ place entry, code.placeIn? labelled position = some place ∧
      entries.filter (fun entry => entry.slot = slot && entry.covers labelled place) =
        [entry] := by
  obtain ⟨scopes, _, analyzed, attached, rfl⟩ :=
    (generateEntries_eq_ok hasCode).mp generated
  obtain ⟨_, _, flow, _, refined, stages, rfl⟩ := analyze_eq_ok.mp analyzed
  cases built.symm.trans stages.built
  cases computed.symm.trans stages.computed
  cases isLabelled
  have traces : (Scene.ofBody (method.body owner code) flow).TracesOperands frames := by
    rw [stages.flow_eq]
    rcases traceable with plain | traces
    · exact tracesOperands_of_plain (method.body owner code) plain built computed
    · exact traces
  obtain ⟨size_eq, cover⟩ := stages.isExactCover
  obtain ⟨kept, isKept, keptUsable⟩ :=
    stages.usable_of_load stores traces found held isUsable
  obtain ⟨frame, there, _⟩ := Frames.localAt_eq_some.mp held
  have inBlock : flow.InBlock position :=
    stages.flow_eq ▸ inBlock_of_frame stages.built stages.computed found rfl there
  exact Code.attach_exactlyOne distinct cover size_eq inBlock isKept keptUsable
    found rfl attached

/-- Whether stores leave upper halves in their slots can be seen position by position. -/
theorem stores_of_sites {frames : Frames} (sites : ∀ store < code.instructions.size,
      ∀ slot ∈ code.instructions[store]?.bind Instruction.stored?,
        frames.localAt (store + 1) slot ≠ some .top)
    (store : Nat) (kind : Kind) (stored : Nat)
    (found : code.instructions[store]? = some (.store kind stored)) :
    frames.localAt (store + 1) stored ≠ some .top := by
  refine sites store (Array.getElem?_eq_some_iff.mp found).1 stored ?_
  rw [found]
  rfl

/-- A switch between a `float` and a `long` in one slot. -/
def switchingCode : Code :=
  { maxStack := 2
    maxLocals := 3
    instructions :=
      #[.load .int 0, .lookupSwitch ⟨1⟩ [(0, ⟨0⟩)], .label ⟨0⟩, .floatConstant 0,
      .store .float 1, .load .float 1, .pop, .goto ⟨2⟩, .label ⟨1⟩, .longConstant 1,
      .store .long 1, .load .long 1, .pop2, .label ⟨2⟩, .returnVoid]
    handlers := []
    table := none }

def switchingMethod : Method :=
  { name := ⟨"m", by decide⟩
    descriptor := ⟨[.base .int], none⟩
    access := ⟨8⟩
    code := some switchingCode
    parameterNames := none }

/-- The `long` that is loaded has one entry, although its slot has another one. -/
theorem switching_entries_cover_loads :
    ∃ branches completed frames resulting labelled entries,
      switchingMethod.code = some switchingCode ∧ switchingCode.LabelsDistinct ∧
      (generateEntries .object switchingMethod : Query ⟨[]⟩ _).eval =
        .ok (resulting, entries) ∧
      resulting.code = some labelled ∧ Flow.ofCode switchingCode = .ok branches ∧
      (computeFrames (switchingMethod.body .object switchingCode) branches :
        Query ⟨[]⟩ _).eval = .ok (frames, completed) ∧
      (∀ store kind stored, switchingCode.instructions[store]? =
        some (.store kind stored) → frames.localAt (store + 1) stored ≠ some .top) ∧
      (∀ snapshot, .snapshot snapshot ∉ switchingCode.instructions) ∧
      switchingCode.instructions[11]? = some (.load .long 1) ∧
      frames.localAt 11 1 = some .long ∧
      ∃ place entry, switchingCode.placeIn? labelled 11 = some place ∧
        entries.filter (fun entry => entry.slot = 1 && entry.covers labelled place) =
          [entry] := by
  have analyzed : (do
      let branches ← ofExcept (Flow.ofCode switchingCode)
      let computed ← computeFrames (switchingMethod.body .object switchingCode) branches
      let flow := (computed.2.protect switchingCode.instructions).closeBlocks
      let liveness := (Liveness.compute switchingCode.instructions flow computed.1 3).1
      let _ ← refine (switchingMethod.body .object switchingCode) flow
        (computed.1.trim flow liveness)
      return decide ((∀ store < switchingCode.instructions.size,
          ∀ slot ∈ switchingCode.instructions[store]?.bind Instruction.stored?,
            computed.1.localAt (store + 1) slot ≠ some .top) ∧
        computed.1.localAt 11 1 = some .long) : Query ⟨[]⟩ _).eval = .ok true := by
    decide +kernel
  obtain ⟨branches, built, analyzed⟩ := eval_bind_eq_ok.mp analyzed
  obtain ⟨⟨frames, completed⟩, computed, analyzed⟩ := eval_bind_eq_ok.mp analyzed
  obtain ⟨refined, isRefined, analyzed⟩ := eval_bind_eq_ok.mp analyzed
  rw [eval_ofExcept] at built
  obtain ⟨sites, isLong⟩ := of_decide_eq_true (Except.ok.inj analyzed)
  have stages : Stages ⟨[]⟩ (switchingMethod.body .object switchingCode) branches
      completed _ frames refined := ⟨built, computed, rfl, isRefined⟩
  have isAnalyzed := analyze_eq_ok.mpr ⟨_, _, _, _, _, stages, rfl⟩
  obtain ⟨⟨labelled, entries⟩, attached⟩ :=
    Code.exists_attach (withinCode_analyze isAnalyzed)
      (show switchingCode.HasRoom by decide)
  have generated := (generateEntries_eq_ok rfl).mpr ⟨_, _, isAnalyzed, attached, rfl⟩
  have stores := stores_of_sites sites
  have plain : ∀ snapshot, .snapshot snapshot ∉ switchingCode.instructions := by
    simp [switchingCode]
  have distinct : switchingCode.LabelsDistinct := by decide
  exact ⟨branches, completed, frames, _, _, _, rfl, distinct, generated, rfl,
    built, computed, stores, plain, rfl, isLong,
      generated_entries_cover_loads rfl distinct generated rfl built
      computed stores (.inl plain) rfl isLong nofun⟩

/-- A flag in slot 5 that is compared with an `int`, or with the upper half of a
`long`. -/
def comparingCode : Code :=
  { maxStack := 2
    maxLocals := 6
    instructions :=
      #[.load .ref 0, .instanceOf (.object .object), .store .int 5, .load .int 5,
      .pop, .load .int 1, .branchZero .eq ⟨1⟩, .intConstant 0, .store .int 5, .label ⟨1⟩,
      .load .int 1, .branchZero .eq ⟨2⟩, .load .int 4, .load .int 5,
      .snapshot (.full [.object (.object .object), .integer, .long, .integer, .integer]
        [.integer, .integer]),
      .label ⟨3⟩, .branchInt .eq ⟨4⟩, .label ⟨4⟩, .returnVoid, .label ⟨2⟩, .load .long 2,
      .goto ⟨3⟩]
    handlers := []
    table := none }

def comparingMethod : Method :=
  { name := ⟨"comparing", by decide⟩
    descriptor := ⟨[.object .object, .base .int, .base .long, .base .int], none⟩
    access := ⟨8⟩
    code := some comparingCode
    parameterNames := none }

/-- The flag that is loaded has no entry.  To compare booleans fails, and to take that
back makes the store of the flag one of an upper half. -/
theorem comparing_load_has_no_entry :
    ∃ branches completed frames resulting labelled entries place,
      comparingMethod.code = some comparingCode ∧ comparingCode.LabelsDistinct ∧
      comparingCode.instructions.back? = some (.goto ⟨3⟩) ∧
      (generateEntries .object comparingMethod : Query ⟨[]⟩ _).eval =
        .ok (resulting, entries) ∧
      resulting.code = some labelled ∧ Flow.ofCode comparingCode = .ok branches ∧
      (computeFrames (comparingMethod.body .object comparingCode) branches :
        Query ⟨[]⟩ _).eval = .ok (frames, completed) ∧
      (∀ store kind stored, comparingCode.instructions[store]? =
        some (.store kind stored) → frames.localAt (store + 1) stored ≠ some .top) ∧
      comparingCode.instructions[3]? = some (.load .int 5) ∧
      frames.localAt 3 5 = some .boolean ∧
      comparingCode.placeIn? labelled 3 = some place ∧
      entries.filter (fun entry => entry.slot = 5 && entry.covers labelled place) =
        [] := by
  have analyzed : (do
      let branches ← ofExcept (Flow.ofCode comparingCode)
      let computed ← computeFrames (comparingMethod.body .object comparingCode) branches
      let flow := (computed.2.protect comparingCode.instructions).closeBlocks
      let liveness := (Liveness.compute comparingCode.instructions flow computed.1 6).1
      let refined ← refine (comparingMethod.body .object comparingCode) flow
        (computed.1.trim flow liveness)
      return decide ((∀ store < comparingCode.instructions.size,
          ∀ slot ∈ comparingCode.instructions[store]?.bind Instruction.stored?,
            computed.1.localAt (store + 1) slot ≠ some .top) ∧
        computed.1.localAt 3 5 = some .boolean ∧
        ∀ scope ∈ Scope.separate (Scope.merged flow refined 6), scope.isWritten = true →
          scope.spans 5 3 = false) : Query ⟨[]⟩ _).eval = .ok true := by
    decide +kernel
  obtain ⟨branches, built, analyzed⟩ := eval_bind_eq_ok.mp analyzed
  obtain ⟨⟨frames, completed⟩, computed, analyzed⟩ := eval_bind_eq_ok.mp analyzed
  obtain ⟨refined, isRefined, analyzed⟩ := eval_bind_eq_ok.mp analyzed
  rw [eval_ofExcept] at built
  obtain ⟨sites, isFlag, uncovered⟩ := of_decide_eq_true (Except.ok.inj analyzed)
  have stages : Stages ⟨[]⟩ (comparingMethod.body .object comparingCode) branches
      completed _ frames refined := ⟨built, computed, rfl, isRefined⟩
  have isAnalyzed := analyze_eq_ok.mpr ⟨_, _, _, _, _, stages, rfl⟩
  have within := withinCode_analyze isAnalyzed
  obtain ⟨⟨labelled, entries⟩, attached⟩ :=
    Code.exists_attach within (show comparingCode.HasRoom by decide)
  have distinct : comparingCode.LabelsDistinct := by decide
  have found : comparingCode.instructions[3]? = some (.load .int 5) := rfl
  obtain ⟨place, isPlace, counted⟩ :=
    Code.attach_counts distinct within found rfl attached 5
  refine ⟨branches, completed, frames, _, _, entries, place, rfl, distinct, rfl,
    (generateEntries_eq_ok rfl).mpr ⟨_, _, isAnalyzed, attached, rfl⟩, rfl,
      built, computed,
    stores_of_sites sites, found, isFlag, isPlace, ?_⟩
  refine List.length_eq_zero_iff.mp (counted.symm.trans (List.length_eq_zero_iff.mpr ?_))
  refine List.filter_eq_nil_iff.mpr fun scope member isAround => ?_
  obtain ⟨inScopes, isWritten⟩ := List.mem_filter.mp member
  rw [uncovered scope (List.mem_mergeSort.mp inScopes) isWritten] at isAround
  cases isAround

end Query

end LocalTable
