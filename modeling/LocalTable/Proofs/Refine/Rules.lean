import LocalTable.Proofs.Refine.Passes
import LocalTable.Proofs.Refine.Stores

/-!
# Rules that refine frames

Every rule keeps to types that are kin to those in the frames.  The one place where
that is in question is the attempt to make two operands booleans: if it fails, the
operands get the types of their cells back, and these have to be kin to the types of
the stores.
-/

namespace LocalTable

variable {hierarchy : Hierarchy} {scene : Scene} {maxLocals : Nat} {liveness : Liveness}
  {computed trimmed current : Frames} {R K : ValueType → ValueType → Prop}
  {tracked : Nat → Prop}

/-! ## Cells -/

theorem forall₂_modify {α β : Type} {P : α → β → Prop} {olds : List α} {news : List β}
    (related : List.Forall₂ P olds news) (index : Nat) (change : β → β)
    (changed : ∀ old new, olds[index]? = some old → P old new → P old (change new)) :
    List.Forall₂ P olds (news.modify index change) := by
  induction related generalizing index with
  | nil =>
      rw [List.modify_nil]
      exact .nil
  | cons head tail ih =>
      cases index with
      | zero => exact .cons (changed _ _ rfl head) tail
      | succ index =>
          exact .cons head (ih index fun old new isOld => changed old new isOld)

theorem Refinement.Refines.start (kinship : ValueType.Kinship K)
    (trims : computed.TrimmedTo liveness trimmed) {maxLocals : Nat} :
    (Refinement.start trimmed maxLocals).Refines K K tracked computed trimmed := by
  refine ⟨⟨trims.size_eq, trims.none_of_none, fun there => ?_⟩,
    fun _ _ before isBefore _ => ⟨before, isBefore, rfl⟩⟩
  obtain ⟨kept, isKept, frameTrims⟩ := trims.frame there
  refine ⟨kept, kept, isKept, isKept, frameTrims.size_eq, ?_, fun {slot type} held => ?_,
    fun {slot refined} held => ?_⟩
  · rw [frameTrims.stack_eq]
    refine List.forall₂_same.mpr fun cell _ => ⟨rfl, fun _ => ?_⟩
    cases cell.type with
    | none => exact .none
    | some type => exact .some (kinship.refl type)
  · exact ⟨type, held, kinship.refl type⟩
  · exact .inl ⟨refined, held, kinship.refl refined⟩

/-- A type to which the computed cell at a distance from the top can be changed. -/
def Frames.CellFits (K : ValueType → ValueType → Prop) (computed : Frames)
    (position distance : Nat) (type : ValueType) : Prop :=
  ∀ frame cell, computed.at? position = some frame → frame.peek? distance = some cell →
    ∃ before, cell.type = some before ∧ K type before

theorem Refinement.Refines.retypeCell {refinement : Refinement} {position distance : Nat}
    {type : ValueType} (refines : refinement.Refines R K tracked computed trimmed)
    (fits : tracked position → computed.CellFits K position distance type) :
    (refinement.retypeCell position distance type).Refines R K tracked
      computed trimmed := by
  refine ⟨?_, by simpa [Refinement.Records, Refinement.changesOf] using refines.records⟩
  unfold Refinement.retypeCell
  split
  next => exact refines.frames
  next new isNew =>
    obtain ⟨old, middle, isOld, isMiddle, frameRefines⟩ := refines.frames.exists_old isNew
    refine refines.frames.put isOld isMiddle ?_
    cases distance with
    | zero => exact frameRefines
    | succ above =>
        refine ⟨frameRefines.size_eq, ?_, frameRefines.kept, frameRefines.known⟩
        refine forall₂_modify frameRefines.cells above _
          fun oldCell newCell isCell related => ?_
        refine ⟨related.1, fun isTracked => ?_⟩
        obtain ⟨before, isBefore, kin⟩ := fits isTracked old oldCell isOld isCell
        rw [isBefore]
        exact .some kin

/-- A cell remembers where its value comes from, and the cell of a tracked position has
a type that is kin to the computed one. -/
theorem Frames.RefinesTo.exists_cell {position distance : Nat} {new : Frame} {cell : Cell}
    (refines : Frames.RefinesTo R K tracked computed trimmed current)
    (there : current.at? position = some new) (peeked : new.peek? distance = some cell) :
    ∃ old before, computed.at? position = some old ∧ old.peek? distance = some before ∧
      old.depth = new.depth ∧ cell.source = before.source ∧
      (tracked position → Option.Rel K cell.type before.type) := by
  obtain ⟨old, middle, isOld, _, frameRefines⟩ := refines.exists_old there
  cases distance with
  | zero => cases peeked
  | succ above =>
      obtain ⟨inBounds, isCell⟩ := List.getElem?_eq_some_iff.mp peeked
      have length_eq := frameRefines.cells.length_eq
      have oldInBounds : above < old.stack.length := length_eq ▸ inBounds
      have related := frameRefines.cells.get oldInBounds inBounds
      rw [List.get_eq_getElem, List.get_eq_getElem, isCell] at related
      exact ⟨old, old.stack[above], isOld,
        List.getElem?_eq_getElem oldInBounds, length_eq, related.1, related.2⟩

/-! ## Operands -/

/-- An operand that stores can be found for, and that has a type, is narrow.  It lies
below a number of cells. -/
def Scene.Traces (scene : Scene) (computed : Frames) (position above : Nat) : Prop :=
  ∀ frame cell type, computed.at? position = some frame →
    frame.peek? (above + 1) = some cell →
    cell.source.isSome = true →
      scene.LoadedFrom computed position (frame.depth - above) .boolean →
    cell.type = some type → type.IsNarrow

/-- Where booleans are suggested, an operand that stores can be found for is narrow. -/
def Scene.TracesOperands (scene : Scene) (computed : Frames) : Prop :=
  ∀ position, scene.SuggestsBooleans position →
    ∀ above < 2, scene.Traces computed position above

/-- If stores can be found for an operand of the expected type below a number of cells,
then its computed cell has a type, and this is kin to the expected one. -/
def Scene.TracesKin (K : ValueType → ValueType → Prop) (scene : Scene) (computed : Frames)
    (position above : Nat) (expected : ValueType) : Prop :=
  ∀ frame cell, computed.at? position = some frame →
    frame.peek? (above + expected.width) = some cell → cell.source.isSome = true →
    scene.LoadedByKin K computed position (frame.depth - above) expected →
    ∃ type, cell.type = some type ∧ K type expected

/-- Positions are tracked only if the operands there can be traced.  Of those that may be
booleans this is asked only if they have a type. -/
structure Scene.Tracks (K : ValueType → ValueType → Prop) (scene : Scene)
    (tracked : Nat → Prop) (computed : Frames) : Prop where
  suggested {position : Nat} (suggests : scene.SuggestsBooleans position) :
    tracked position
  booleans {position above : Nat} {type : ValueType}
    (suggests : scene.SuggestsBooleans position) (isOperand : above < 2)
    (typed : computed.CellFits K position (above + 1) type) :
    scene.TracesKin K computed position above .boolean
  others {position : Nat} (isTracked : tracked position)
    (isFree : ¬scene.SuggestsBooleans position) (above : Nat) (expected : ValueType) :
    scene.TracesKin K computed position above expected

namespace Refine

variable {position above distance : Nat} {expected type : ValueType}

theorem operand?_eq_some {frames : Frames} {operand : Operand}
    (found : operand? frames position above expected = some operand) :
    ∃ frame, frames.at? position = some frame ∧ operand.height = frame.depth - above ∧
      operand.distance = above + expected.width ∧
      frame.peek? (above + expected.width) = some operand.cell := by
  simp only [operand?, bind, pure, Option.bind_eq_some_iff, Option.some.injEq] at found
  obtain ⟨frame, there, cell, peeked, rfl⟩ := found
  exact ⟨frame, there, rfl, rfl, peeked⟩

/-- The type that is found for a cell of a tracked position can be given back to it. -/
theorem cellType?_fits :
    Maintains Error.Frameless (Invariant K tracked computed trimmed)
      (cellType? position distance : Refine hierarchy _)
      fun result => ∀ type, result = some type → tracked position →
        computed.CellFits K position distance type := by
  unfold cellType?
  refine .bind .get fun refinement refines => .pure ?_
  intro type isType isTracked frame cell there peeked
  obtain ⟨new, isNew, isType⟩ := Option.bind_eq_some_iff.mp isType
  obtain ⟨newCell, isNewCell, isType⟩ := Option.bind_eq_some_iff.mp isType
  obtain ⟨_, before, isOld, isCell, _, _, related⟩ :=
    refines.frames.exists_cell isNew isNewCell
  cases there.symm.trans isOld
  cases peeked.symm.trans isCell
  have related := related isTracked
  rw [isType] at related
  cases isBefore : cell.type with
  | none =>
      rw [isBefore] at related
      cases related
  | some earlier =>
      rw [isBefore] at related
      cases related with
      | some kin => exact ⟨earlier, rfl, kin⟩

section Setting

variable (setting : scene.Setting maxLocals liveness computed trimmed)
  (kinship : ValueType.Kinship K)

include setting kinship

/-- An operand of a tracked position can be refined if it can be traced. -/
theorem before_maintains
    (traces : tracked position → scene.TracesKin K computed position above expected) :
    Maintains Error.Frameless (Invariant K tracked computed trimmed)
      (before scene position above expected : Refine hierarchy _) fun _ => True := by
  unfold before
  refine .bind .get fun refinement refines => ?_
  split
  next => exact .pure trivial
  next operand found =>
    split
    next => exact .pure trivial
    next hasSource =>
      refine .bind .get fun same sameRefines => ?_
      refine .bind
        (.ask (Query.loadedStores_guarantees setting kinship sameRefines.frames)) ?_
      intro stores ⟨allFit, loaded⟩
      split
      next => exact .pure trivial
      next nonempty =>
        have nonempty : stores ≠ [] := fun isNil => nonempty (List.isEmpty_iff.mpr isNil)
        have loaded := loaded nonempty
        refine .bind (retypeStores_maintains setting kinship allFit)
          fun result isResult => ?_
        split
        next type =>
          refine .bind (P := fun _ => True) (.modify fun earlier earlierRefines => ?_)
            fun _ _ => .pure trivial
          refine earlierRefines.retypeCell fun isTracked old cell isOld peeked => ?_
          obtain ⟨new, isNew, height_eq, distance_eq, isCell⟩ := operand?_eq_some found
          obtain ⟨_, before, alsoOld, isBefore, depth_eq, source_eq, _⟩ :=
            refines.frames.exists_cell isNew isCell
          cases isOld.symm.trans alsoOld
          rw [distance_eq] at peeked
          cases peeked.symm.trans isBefore
          rw [height_eq, ← depth_eq] at loaded
          have hasSource : cell.source.isSome = true := by
            rw [source_eq] at hasSource
            simpa [Option.isSome_iff_ne_none] using hasSource
          obtain ⟨earlier, isEarlier, kin⟩ :=
            traces isTracked old cell isOld peeked hasSource loaded
          -- Both the new type and the expected one fit the stores that were found.
          obtain ⟨store, member⟩ := List.exists_mem_of_ne_nil stores nonempty
          have kinExpected := (isResult type rfl store member).kin kinship
            (allFit store member)
          exact ⟨earlier, isEarlier, kinship.trans kinExpected (kinship.symm kin)⟩
        next => exact .pure trivial

/-- What was done to an operand is taken back to a type that its cell can have. -/
theorem restore_maintains {earlier : ValueType}
    (traces : scene.TracesKin K computed position above expected)
    (fits : computed.CellFits K position (above + expected.width) earlier) :
    Maintains Error.Frameless (Invariant K tracked computed trimmed)
      (restore scene position above earlier expected : Refine hierarchy _) fun _ =>
        True := by
  unfold restore
  refine .bind .get fun refinement refines => ?_
  split
  next => exact .pure trivial
  next operand found =>
    obtain ⟨new, isNew, height_eq, distance_eq, isCell⟩ := operand?_eq_some found
    obtain ⟨old, cell, isOld, peeked, depth_eq, source_eq, _⟩ :=
      refines.frames.exists_cell isNew isCell
    obtain ⟨before, isBefore, kin⟩ := fits old cell isOld peeked
    split
    next hasSource =>
      refine .bind .get fun same sameRefines => ?_
      refine .bind
        (.ask (Query.loadedStores_guarantees setting kinship sameRefines.frames)) ?_
      intro stores ⟨allFit, loaded⟩
      refine .bind (P := fun _ => True)
        (retypeAll_maintains setting kinship ?_) fun _ _ => ?_
      · intro store member
        have loaded := loaded (List.ne_nil_of_mem member)
        rw [height_eq, ← depth_eq] at loaded
        obtain ⟨_, alsoBefore, kinExpected⟩ :=
          traces old cell isOld peeked (source_eq ▸ hasSource) loaded
        cases isBefore.symm.trans alsoBefore
        exact (allFit store member).of_kin kinship
          (kinship.symm (kinship.trans kin kinExpected))
      · refine .modify fun later laterRefines => laterRefines.retypeCell fun _ => ?_
        rw [distance_eq]
        exact fits
    next => exact .pure trivial

/-- An attempt at booleans changes operands and stores to types that they can have,
whether it succeeds or not. -/
theorem tryBooleans_maintains (isTracked : tracked position)
    (traces : ∀ above < 2, ∀ type, computed.CellFits K position (above + 1) type →
      scene.TracesKin K computed position above .boolean) :
    Maintains Error.Frameless (Invariant K tracked computed trimmed)
      (tryBooleans scene position : Refine hierarchy _) fun _ => True := by
  unfold tryBooleans
  refine .bind cellType?_fits fun right rightFits => ?_
  refine .bind cellType?_fits fun left leftFits => ?_
  split
  next right left =>
    have rightFits := rightFits right rfl isTracked
    have leftFits := leftFits left rfl isTracked
    have rightTraces := traces 0 (by decide) right rightFits
    have leftTraces := traces 1 (by decide) left leftFits
    refine .bind (before_maintains setting kinship fun _ => rightTraces)
      fun rightResult _ => ?_
    refine .bind (before_maintains setting kinship fun _ => leftTraces)
      fun leftResult _ => ?_
    have restoresLeft : Maintains Error.Frameless (Invariant K tracked computed trimmed)
        (if leftResult = some .boolean then do
          restore scene position 1 left .boolean
          return false
        else return false : Refine hierarchy Bool) fun _ => True := by
      split
      next =>
        exact .bind (restore_maintains setting kinship leftTraces leftFits) fun _ _ =>
          .pure trivial
      next => exact .pure trivial
    dsimp only
    split
    next => exact .pure trivial
    next =>
      split
      next =>
        exact .bind (restore_maintains setting kinship rightTraces rightFits) fun _ _ =>
          restoresLeft
      next => exact restoresLeft
  next => exact .pure trivial

/-! ## Consumers -/

theorem after_maintains :
    Maintains Error.Frameless (Invariant K tracked computed trimmed)
      (after scene position expected : Refine hierarchy _) fun _ => True := by
  refine Walk.run_holds (Maintains Error.Frameless
    (Invariant K tracked computed trimmed)) .pure
    .bind (R := fun _ => True) ?_ (fun _ _ => trivial) trivial
  intro consumer _ _ _
  have stops {onward : List Nat} :
      Maintains Error.Frameless (Invariant K tracked computed trimmed)
      (pure ((), onward) : Refine hierarchy (Unit × List Nat))
      fun visited => True ∧ ∀ next ∈ visited.2, True :=
    .pure ⟨trivial, fun _ _ => trivial⟩
  unfold visitForConsumer
  split
  next => exact stops
  next kind slot found =>
    refine .bind .get fun refinement refines => ?_
    split
    next type held =>
      have isStored : scene.storedAt? refinement.frames consumer = some (slot, type) :=
        Scene.storedAt?_eq_some.mpr ⟨by rw [found]; rfl, held⟩
      have fits := (setting.fits kinship refines.frames isStored).2
      refine .bind (P := fun _ => True) ?_ fun _ _ => stops
      refine retypeStore_maintains setting kinship refines isStored ?_
      split
      next should =>
        exact fits.of_kin kinship
          (kinship.of_sameFamily (sameFamily_of_shouldRetype should))
      next => exact fits
    next => exact stops
  next => exact stops
  next =>
    split
    next => exact stops
    next => exact stops

/-! ## Rules -/

/-- The rules keep the invariant if the operands of tracked positions can be traced. -/
theorem sustains_invariant (tracks : scene.Tracks K tracked computed) :
    Sustains hierarchy scene Error.Frameless (Invariant K tracked computed trimmed) where
  before isFree above expected :=
    before_maintains setting kinship fun isTracked =>
      tracks.others isTracked isFree above expected
  after _ _ := after_maintains setting kinship
  tryBooleans suggests :=
    tryBooleans_maintains setting kinship (tracks.suggested suggests)
      fun _ isOperand _ typed => tracks.booleans suggests isOperand typed
  increment position slot amount := by
    refine .bind .get fun refinement refines => ?_
    dsimp only
    split
    next =>
      refine .bind (.ask (Query.reachingStores_guarantees setting kinship refines.frames))
        fun stores allFit => ?_
      exact .bind (retypeStores_maintains setting kinship allFit) fun _ _ => .pure trivial
    next => exact .pure trivial

omit kinship in
/-- An `int` store can be made a boolean one if its local can. -/
theorem refineStore_maintains {instruction : Instruction} (lenient : Lenient R)
    (found : scene.instructions[position]? = some instruction)
    (becomes : ∀ slot type before, instruction = .store .int slot → type ≠ .top →
      trimmed.localAt (position + 1) slot = some before → R type before →
      R .boolean type) :
    Maintains Error.Frameless (Refinement.Refines R K tracked computed trimmed)
      (refineStore scene position instruction : Refine hierarchy _) fun _ => True := by
  unfold refineStore
  split
  next slot =>
    refine .bind .get fun refinement refines => ?_
    split
    next =>
      split
      next type held =>
        split
        next =>
          have isStore : scene.instructions[position]?.bind Instruction.stored? =
              some slot := by
            rw [found]
            rfl
          obtain ⟨isValue, before, isBefore, related⟩ :=
            setting.exists_trimmed lenient refines.frames isStore held
          exact retypeFrom_maintains Error.frameless_tolerates
            (Refinement.Refines.accepts lenient setting.shaped setting.trims isValue)
            (becomes slot type before rfl isValue isBefore related)
        next => exact .pure trivial
      next => exact .pure trivial
    next => exact .pure trivial
  next => exact .pure trivial

end Setting

end Refine

theorem Frames.RefinesTo.mono (weaker : ∀ left right, K left right → R left right)
    (refines : Frames.RefinesTo K K tracked computed trimmed current) :
    Frames.RefinesTo R K tracked computed trimmed current := by
  refine ⟨refines.size_eq, refines.none_of_none, fun there => ?_⟩
  obtain ⟨middle, new, isMiddle, isNew, frameRefines⟩ := refines.frame there
  refine ⟨middle, new, isMiddle, isNew, frameRefines.size_eq, frameRefines.cells,
    fun held => ?_, fun held => ?_⟩
  · obtain ⟨refined, isRefined, related⟩ := frameRefines.kept held
    exact ⟨refined, isRefined, weaker _ _ related⟩
  · rcases frameRefines.known held with ⟨type, isType, related⟩ | isTop
    · exact .inl ⟨type, isType, weaker _ _ related⟩
    · exact .inr isTop

section Refinement

variable {body : Body} {flow : Flow}
  (setting : (Scene.ofBody body flow).Setting maxLocals liveness computed trimmed)
  (kinship : ValueType.Kinship K)
  (tracks : (Scene.ofBody body flow).Tracks K tracked computed) (lenient : Lenient R)
  (weaker : ∀ left right, K left right → R left right)
  (becomes : ∀ store slot type before, body.instructions[store]? =
    some (.store .int slot) →
    type ≠ .top → trimmed.localAt (store + 1) slot = some before → R type before →
    R .boolean type)

include setting kinship tracks lenient weaker becomes

/-- Refined frames hold related types in the same places as the trimmed ones, and the
changes that have led to them are known.  While the passes keep to kin, the stores that
are made boolean at last may be related to them only. -/
theorem Query.refinement_refines :
    (refinement body flow trimmed : Query hierarchy _).Guarantees Error.Frameless
      (Refinement.Refines R K tracked computed trimmed) := by
  refine refinement_guarantees (Refine.sustains_invariant setting kinship tracks)
    (fun _ refines => ⟨refines.frames.mono weaker, refines.records⟩) ?_
    (.start kinship setting.trims)
  intro position instruction found
  refine Refine.refineStore_maintains setting lenient found ?_
  rintro slot type before rfl
  exact becomes position slot type before found

theorem Query.refine_guarantees :
    (refine body flow trimmed : Query hierarchy _).Guarantees Error.Frameless
      (Frames.RefinesTo R K tracked computed trimmed) :=
  .bind (refinement_refines setting kinship tracks lenient weaker becomes)
    fun _ refines => .pure refines.frames

end Refinement

/-! ## Values that stay -/

/-- An upper half remains one, a value remains a value and does not grow. -/
structure ValueType.Keeps (left right : ValueType) : Prop where
  top_iff : left = .top ↔ right = .top
  wide (isWide : left.width = 2) : right.width = 2

theorem ValueType.Alike.keeps {left right : ValueType} (alike : left.Alike right) :
    left.Keeps right :=
  ⟨alike.top_iff, alike.width_eq.symm.trans⟩

theorem keeps_lenient : Lenient ValueType.Keeps :=
  { of_sameFamily := fun same => same.alike.keeps
    trans := fun first second =>
      ⟨first.top_iff.trans second.top_iff, fun isWide => second.wide (first.wide isWide)⟩
    top_iff := ValueType.Keeps.top_iff
    wide := ValueType.Keeps.wide }

theorem Scene.TracesOperands.tracks (traces : scene.TracesOperands computed) :
    scene.Tracks ValueType.Alike scene.SuggestsBooleans computed where
  suggested := id
  others suggests isFree := absurd suggests isFree
  booleans {position above type} suggests isOperand typed frame cell there
    peeked hasSource
      loaded := by
    obtain ⟨earlier, isEarlier, _⟩ := typed frame cell there peeked
    have isNarrow : earlier.IsNarrow :=
      traces position suggests above isOperand frame cell earlier there peeked
        hasSource loaded isEarlier
    exact ⟨earlier, isEarlier, isNarrow.trans (ValueType.isNarrow_of_isIntLike rfl).symm⟩

section Ensures

variable {body : Body} {flow : Flow}
  (setting : (Scene.ofBody body flow).Setting maxLocals liveness computed trimmed)
  (traces : (Scene.ofBody body flow).TracesOperands computed)

include setting traces

theorem Query.refinement_ensures :
    (refinement body flow trimmed : Query hierarchy _).Ensures
      (Refinement.Refines ValueType.Keeps ValueType.Alike
        (Scene.ofBody body flow).SuggestsBooleans computed trimmed) := by
  refine (refinement_refines setting ValueType.alike_kinship traces.tracks keeps_lenient
    (fun _ _ => ValueType.Alike.keeps) ?_).ensures
  intro store slot type before _ isValue _ _
  exact ⟨⟨nofun, fun isTop => absurd isTop isValue⟩, nofun⟩

/-- Refined frames hold values in the same places as the trimmed ones. -/
theorem Query.refine_ensures :
    (refine body flow trimmed : Query hierarchy _).Ensures
      (Frames.RefinesTo ValueType.Keeps ValueType.Alike
        (Scene.ofBody body flow).SuggestsBooleans computed trimmed) :=
  (refinement_ensures setting traces).bind fun _ refines => .pure refines.frames

end Ensures

end LocalTable
