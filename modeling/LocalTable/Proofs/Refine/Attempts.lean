import LocalTable.Proofs.Refine.History
import LocalTable.Proofs.Refine.Trials

/-!
# Attempts at booleans

An attempt to make two operands booleans gives the type to all stores that are found for
them, from where it spreads.  If only one of them can be a boolean, the stores that are
found for it by then get the type of its cell back, which spreads as well.  This leaves
no trace if the cell knows what its stores leave, and if these have been refined either
everywhere or nowhere.
-/

namespace LocalTable

variable {hierarchy : Hierarchy} {scene : Scene}

/-! ## Stores of operands -/

namespace Query

/-- The walks back from an operand below a number of cells come to the load and to the
store. -/
def FeedsOperand (hierarchy : Hierarchy) (scene : Scene) (frames : Frames)
    (position above : Nat) (slot load store : Nat) : Prop :=
  ∃ depth, frames.depthAt position = some depth ∧
    Feeds hierarchy scene frames position (depth - above) .boolean slot load store

variable {before after : Refinement} {tried kept : Set (Nat × Nat)}
  {position above height slot load store : Nat}

theorem LoadsFor.isEither {frames : Frames} {type : ValueType}
    (loads : LoadsFor hierarchy scene frames height .boolean slot type load) :
    type = .int ∨ type = .boolean := by
  obtain ⟨_, _, _, _, _, _, fits⟩ := loads
  rw [eval_isCompatible_boolean] at fits
  simpa using fits

theorem Feeds.storesTo {frames : Frames} {expected : ValueType}
    (feeds : Feeds hierarchy scene frames position height expected slot load store) :
    scene.StoresTo slot store := by
  obtain ⟨_, _, _, _, stores, _⟩ := feeds
  exact stores

theorem FeedsOperand.storesTo {frames : Frames}
    (feeds : FeedsOperand hierarchy scene frames position above slot load store) :
    scene.StoresTo slot store := by
  obtain ⟨_, _, feeds⟩ := feeds
  exact feeds.storesTo

/-- Stores that are found in some frames are found in others of the same outline as well
if the local that is loaded can be a boolean there too, and all stores still fit that
fitted. -/
theorem Feeds.transfer {left right : Frames} (outline_eq : right.outline = left.outline)
    (fits : ∀ type, left.localAt load slot = some type → type = .int ∨ type = .boolean →
      ∃ other, right.localAt load slot = some other ∧ (other = .int ∨ other = .boolean) ∧
        ∀ store, scene.FitsLoad hierarchy left slot type .boolean store →
          scene.FitsLoad hierarchy right slot other .boolean store)
    (feeds : Feeds hierarchy scene left position height .boolean slot load store) :
    Feeds hierarchy scene right position height .boolean slot load store := by
  have depthAt_eq (other : Nat) : left.depthAt other = right.depthAt other := by
    rw [← Frames.depthAt_outline, ← outline_eq, Frames.depthAt_outline]
  obtain ⟨isExplored, type, loads, isFound, isFitting⟩ := feeds
  have isEither := loads.isEither
  obtain ⟨depth, kind, isDepth, isHeight, isLoad, held, _⟩ := loads
  obtain ⟨other, otherHeld, otherEither, allFit⟩ := fits type held isEither
  refine ⟨isExplored.mono fun position next goesOn => ?_, other,
    ⟨depth, kind, depthAt_eq load ▸ isDepth, isHeight, isLoad, otherHeld, ?_⟩,
    isFound.mono fun position next goesOn => ?_, allFit store isFitting⟩
  · obtain ⟨isBefore, depth, instruction, isDepth, rest⟩ := goesOn
    exact ⟨isBefore, depth, instruction, depthAt_eq position ▸ isDepth, rest⟩
  · rw [eval_isCompatible_boolean]
    simpa using otherEither
  · exact ⟨goesOn.1, fun stores => allFit position (goesOn.2 stores)⟩

section Tried

variable (isTried : before.Tried tried kept after)

include isTried

/-- What has been tried adds nothing to the stores that are found, if no store of the
slots in question had left a boolean before. -/
theorem Feeds.of_tried
    (alone : ∀ position slot, (position, slot) ∈ kept →
      ∀ store, scene.StoresTo slot store →
      before.frames.localAt (store + 1) slot ≠ some .boolean)
    (feeds : Feeds hierarchy scene after.frames position height .boolean
      slot load store) :
    Feeds hierarchy scene before.frames position height .boolean slot load store := by
  refine feeds.transfer isTried.outline_eq.symm fun type held isEither => ?_
  by_cases isKept : (load, slot) ∈ kept
  · have wasInt := isTried.isInt (isTried.kept_subset isKept)
    refine ⟨.int, wasInt, .inl rfl, fun store fits => ?_⟩
    rw [fitsLoad_boolean_iff isEither] at fits
    rw [fitsLoad_boolean_iff (.inl rfl)]
    refine ⟨fits.1, .inl ?_⟩
    rcases fits.2 with isInt | ⟨_, isBoolean⟩
    · exact (isTried.localAt_eq_int isInt).2
    · exact (isTried.localAt_eq_boolean isBoolean).resolve_right
        (alone load slot isKept store fits.1)
  · refine ⟨type, (isTried.same isKept).symm.trans held, isEither, fun store fits => ?_⟩
    rw [fitsLoad_boolean_iff isEither] at fits ⊢
    refine ⟨fits.1, ?_⟩
    rcases fits.2 with isInt | ⟨isType, isBoolean⟩
    · exact .inl (isTried.localAt_eq_int isInt).2
    · exact (isTried.localAt_eq_boolean isBoolean).imp_right fun wasBoolean =>
        ⟨isType, wasBoolean⟩

/-- From a load that has been tried, the same stores are found as before. -/
theorem Feeds.to_tried (isKept : (load, slot) ∈ kept)
    (feeds : Feeds hierarchy scene before.frames position height .boolean
      slot load store) :
    Feeds hierarchy scene after.frames position height .boolean slot load store := by
  refine feeds.transfer isTried.outline_eq fun type held isEither => ?_
  cases held.symm.trans (isTried.isInt (isTried.kept_subset isKept))
  refine ⟨.boolean, isTried.isBoolean isKept, .inr rfl, fun store fits => ?_⟩
  rw [fitsLoad_boolean_iff (.inl rfl)] at fits
  rw [fitsLoad_boolean_iff (.inr rfl)]
  have wasInt := fits.2.resolve_right (by simp)
  obtain ⟨stored, storedEither, storedHeld⟩ := isTried.exists_localAt wasInt
  refine ⟨fits.1, ?_⟩
  rcases storedEither with rfl | rfl
  · exact .inl storedHeld
  · exact .inr ⟨rfl, storedHeld⟩

theorem FeedsOperand.of_tried
    (alone : ∀ position slot, (position, slot) ∈ kept →
      ∀ store, scene.StoresTo slot store →
      before.frames.localAt (store + 1) slot ≠ some .boolean)
    (feeds : FeedsOperand hierarchy scene after.frames position above slot load store) :
    FeedsOperand hierarchy scene before.frames position above slot load store := by
  obtain ⟨depth, isDepth, feeds⟩ := feeds
  refine ⟨depth, ?_, feeds.of_tried isTried alone⟩
  rw [← isDepth, ← Frames.depthAt_outline, ← isTried.outline_eq, Frames.depthAt_outline]

theorem FeedsOperand.to_tried (isKept : (load, slot) ∈ kept)
    (feeds : FeedsOperand hierarchy scene before.frames position above slot load store) :
    FeedsOperand hierarchy scene after.frames position above slot load store := by
  obtain ⟨depth, isDepth, feeds⟩ := feeds
  refine ⟨depth, ?_, feeds.to_tried isTried isKept⟩
  rw [← isDepth, ← Frames.depthAt_outline, isTried.outline_eq, Frames.depthAt_outline]

end Tried

end Query

/-! ## Operands that can be undone -/

/-- All stores of the operand are fresh, and each load that has pushed it is reached by
an `int` from one of them. -/
def Refinement.FreshlyFed (hierarchy : Hierarchy) (scene : Scene) (before : Refinement)
    (position above : Nat) : Prop :=
  ∀ slot load store,
    Query.FeedsOperand hierarchy scene before.frames position above slot load store →
      before.Fresh scene slot store ∧ ∃ otherLoad other,
        Query.FeedsOperand hierarchy scene before.frames position above slot
          otherLoad other ∧
          scene.KeepsInt before.frames slot (other + 1) load

/-- What an attempt does to the operand below a number of cells can be taken back: no
stores are found for it, or it is a boolean and all its stores leave booleans, or it is
an `int` and all its stores are settled or fresh. -/
def Refinement.Undoable (hierarchy : Hierarchy) (scene : Scene) (before : Refinement)
    (position above : Nat) : Prop :=
  ∀ cell, before.frames.cellAt position (above + 1) = some cell →
    cell.source.isSome = true →
    (∀ slot load store,
      ¬Query.FeedsOperand hierarchy scene before.frames position above slot load store) ∨
    cell.type = some .boolean ∧ (∀ slot load store,
      Query.FeedsOperand hierarchy scene before.frames position above slot load store →
        before.frames.localAt (store + 1) slot = some .boolean) ∨
    cell.type = some .int ∧
      ((∀ slot load store,
          Query.FeedsOperand hierarchy scene before.frames position above
            slot load store →
            before.Settled scene slot store) ∨
        before.FreshlyFed hierarchy scene position above)

theorem Scene.ClosedOver.mem_of_keepsInt {frames : Frames} {places : Set (Nat × Nat)}
    {slot start position : Nat} (closed : scene.ClosedOver frames places)
    (isThere : (start, slot) ∈ places)
    (keeps : scene.KeepsInt frames slot start position) :
    (position, slot) ∈ places := by
  obtain ⟨_, path⟩ := keeps
  induction path with
  | refl => exact isThere
  | tail _ step ih => exact closed _ _ _ ih step.1 step.2

theorem Scene.ClosedBack.notMem_of_keepsInt {frames : Frames}
    {tried kept : Set (Nat × Nat)} {slot start position : Nat}
    (back : scene.ClosedBack tried kept) (closed : scene.ClosedOver frames tried)
    (isThere : (start, slot) ∈ tried) (isBack : (start, slot) ∉ kept)
    (keeps : scene.KeepsInt frames slot start position) :
    (position, slot) ∉ kept := by
  obtain ⟨isInt, path⟩ := keeps
  induction path with
  | refl => exact isBack
  | tail earlier step ih =>
      exact back _ _ _ (closed.mem_of_keepsInt isThere ⟨isInt, earlier⟩) ih step.1

/-- The operand has become a boolean, and so has every `int` that its stores lead to. -/
structure Refinement.Converts (hierarchy : Hierarchy) (scene : Scene)
    (origin : Refinement) (frames : Frames) (position above : Nat)
    (base tried : Set (Nat × Nat)) (after : Refinement) :
    Prop where
  isTried : origin.Tried tried tried after
  closed : scene.ClosedOver origin.frames tried
  fed : origin.FreshlyFed hierarchy scene position above
  reached {slot load store : Nat}
    (feeds : Query.FeedsOperand hierarchy scene frames position above slot load store) :
    (store + 1, slot) ∈ tried
  within {other slot : Nat} (member : (other, slot) ∈ tried) : (other, slot) ∈ base ∨
    ∃ load store,
      Query.FeedsOperand hierarchy scene origin.frames position above slot load store ∧
        scene.KeepsInt origin.frames slot (store + 1) other

namespace Refinement.Converts

variable {origin after : Refinement} {frames : Frames}
  {position above other slot store : Nat} {tried : Set (Nat × Nat)}
  (converts : origin.Converts hierarchy scene frames position above ∅ tried after)

include converts

/-- If no place had been tried before, all of them come from the stores of the operand. -/
theorem exists_store (member : (other, slot) ∈ tried) : ∃ load store,
    Query.FeedsOperand hierarchy scene origin.frames position above slot load store ∧
      scene.KeepsInt origin.frames slot (store + 1) other :=
  (converts.within member).resolve_left (Set.notMem_empty _)

theorem alone (member : (other, slot) ∈ tried) (stores : scene.StoresTo slot store) :
    origin.frames.localAt (store + 1) slot ≠ some .boolean := by
  obtain ⟨load, store, feeds, _⟩ := converts.exists_store member
  exact (converts.fed _ _ _ feeds).1.alone stores

end Refinement.Converts

namespace Refine

variable {origin state after : Refinement} {base tried : Set (Nat × Nat)}
  {position above : Nat} {cell : Cell} {result : Option ValueType}

theorem exists_operand {frames : Frames}
    (isCell : frames.cellAt position (above + 1) = some cell) :
    ∃ depth, frames.depthAt position = some depth ∧
      operand? frames position above .boolean =
        some ⟨depth - above, above + 1, cell⟩ := by
  obtain ⟨frame, there, peeked⟩ := Option.bind_eq_some_iff.mp isCell
  refine ⟨frame.depth, by simp [Frames.depthAt, there], ?_⟩
  simp [operand?, there, peeked, ValueType.width]

theorem mem_stores_iff {frames : Frames} {depth store : Nat} {stores : List Nat}
    (isDepth : frames.depthAt position = some depth)
    (answered : (Query.loadedStores scene frames position (depth - above) .boolean :
      Query hierarchy _).eval = .ok stores) :
    store ∈ stores ↔ ∃ slot load,
      Query.FeedsOperand hierarchy scene frames position above slot load store := by
  rw [Query.mem_loadedStores_iff answered]
  simp [Query.FeedsOperand, isDepth]

/-- Where only booleans are found for an operand, taking it back does nothing. -/
theorem frames_restore_of_booleans
    (booleans : cell.source.isSome = true → ∀ slot load store,
      Query.FeedsOperand hierarchy scene state.frames position above slot load store →
        state.frames.localAt (store + 1) slot = some .boolean)
    (isCell : state.frames.cellAt position (above + 1) = some cell)
    (isBoolean : cell.type = some .boolean)
    (ran :
      ((restore scene position above .boolean .boolean : Refine hierarchy _).run
        state).eval =
      .ok ((), after)) :
    after.frames = state.frames := by
  obtain ⟨depth, isDepth, isOperand⟩ := exists_operand isCell
  rcases restore_eq_ok isOperand ran with
    ⟨_, rfl⟩ | ⟨stores, middle, hasSource, answered, retyped, rfl⟩
  · rfl
  · have marks := retypeAll_marks (fun store member => by
      obtain ⟨slot, load, feeds⟩ := (mem_stores_iff isDepth answered).mp member
      exact ⟨slot, Scene.storedAt?_eq_some.mpr ⟨feeds.storesTo,
        booleans hasSource slot load store feeds⟩⟩) retyped
    have sameCell := isCell
    rw [← marks.frames_eq] at sameCell
    exact (Refinement.frames_retypeCell_self sameCell isBoolean).trans marks.frames_eq

/-- Booleans stay what they are. -/
theorem retypeStores_of_booleans {stores : List Nat} (nonempty : stores ≠ [])
    (all : ∀ store ∈ stores, ∃ slot, scene.storedAt? state.frames store =
      some (slot, .boolean))
    (ran : ((retypeStores scene stores .boolean : Refine hierarchy _).run state).eval =
      .ok (result, after)) :
    result = some .boolean ∧ state.OnlyMarks after := by
  have isCommon :
      (Query.commonStored scene state.frames stores : Query hierarchy _).eval =
      .ok (some .boolean) := Query.eval_commonStored_of_same (by decide) nonempty all
  obtain ⟨retyped, answered⟩ := retypeStores_eq_ok isCommon ran
  have marks := retypeAll_marks all retyped
  rw [marks.frames_eq, isCommon] at answered
  exact ⟨(Except.ok.inj answered).symm, marks⟩

section Operand

variable (inRange : ∀ position slot type,
    origin.frames.localAt position slot = some type → slot < origin.refined.size)

include inRange

section Tried

variable (isTried : origin.Tried base base state)

include isTried

/-- Settled stores keep their `int`. -/
theorem retypeStores_of_settled {stores : List Nat} (nonempty : stores ≠ [])
    (settled : ∀ store ∈ stores, ∃ slot, scene.StoresTo slot store ∧
      origin.Settled scene slot store)
    (ran : ((retypeStores scene stores .boolean : Refine hierarchy _).run state).eval =
      .ok (result, after)) :
    result = some .int ∧ state.OnlyMarks after := by
  have settledStill (store : Nat) (member : store ∈ stores) :
      ∃ slot, scene.StoresTo slot store ∧ state.Settled scene slot store := by
    obtain ⟨slot, isStore, isSettled⟩ := settled store member
    exact ⟨slot, isStore, isTried.settled isSettled⟩
  have isCommon :
      (Query.commonStored scene state.frames stores : Query hierarchy _).eval =
      .ok (some .int) := by
    refine Query.eval_commonStored_of_same (by decide) nonempty fun store member => ?_
    obtain ⟨slot, isStore, isSettled⟩ := settledStill store member
    exact ⟨slot, Scene.storedAt?_eq_some.mpr ⟨isStore, isSettled.isInt⟩⟩
  obtain ⟨retyped, answered⟩ := retypeStores_eq_ok isCommon ran
  obtain ⟨frames_eq, refined_eq⟩ :=
    retypeAll_of_settled (isTried.inRange inRange) settledStill retyped
  rw [frames_eq, isCommon] at answered
  exact ⟨(Except.ok.inj answered).symm, .of_eq frames_eq refined_eq⟩

/-- Fresh stores become booleans, and so does all that an `int` of them gets to. -/
theorem retypeStores_of_fresh {stores : List Nat} (nonempty : stores ≠ [])
    (fresh : ∀ store ∈ stores, ∃ slot, scene.StoresTo slot store ∧
      origin.Fresh scene slot store)
    (closed : scene.ClosedOver origin.frames base)
    (ran : ((retypeStores scene stores .boolean : Refine hierarchy _).run state).eval =
      .ok (result, after)) :
    result = some .boolean ∧
      (∀ other distance,
        after.frames.cellAt other distance = state.frames.cellAt other distance) ∧
      ∃ tried, origin.Tried tried tried after ∧ scene.ClosedOver origin.frames tried ∧
        (∀ store ∈ stores, ∀ slot, scene.StoresTo slot store →
          (store + 1, slot) ∈ tried) ∧
        ∀ position slot, (position, slot) ∈ tried → (position, slot) ∈ base ∨
          ∃ store ∈ stores, scene.StoresTo slot store ∧
            scene.KeepsInt origin.frames slot (store + 1) position := by
  have held (store : Nat) (member : store ∈ stores) : ∃ slot type,
      (type = .int ∨ type = .boolean) ∧
          scene.storedAt? state.frames store = some (slot, type) := by
    obtain ⟨slot, isStore, isFresh⟩ := fresh store member
    obtain ⟨type, isEither, held⟩ := isTried.exists_localAt isFresh.isInt
    exact ⟨slot, type, isEither, Scene.storedAt?_eq_some.mpr ⟨isStore, held⟩⟩
  obtain ⟨common, isCommon, isExpected⟩ := Query.exists_commonStored nonempty held
  obtain ⟨retyped, answered⟩ := retypeStores_eq_ok isCommon ran
  rw [isExpected] at retyped
  obtain ⟨tried, afterTried, _, afterClosed, reached, within⟩ :=
    retypeAll_tries inRange fresh isTried closed retyped
  have becomes : (Query.commonStored scene after.frames stores : Query hierarchy _).eval =
      .ok (some .boolean) := by
    refine Query.eval_commonStored_of_same (by decide) nonempty fun store member => ?_
    obtain ⟨slot, isStore, _⟩ := fresh store member
    have isBoolean := afterTried.isBoolean (reached store member slot isStore)
    exact ⟨slot, Scene.storedAt?_eq_some.mpr ⟨isStore, isBoolean⟩⟩
  rw [becomes] at answered
  exact ⟨(Except.ok.inj answered).symm, cellAt_retypeAll retyped, tried,
    afterTried, afterClosed, reached, within⟩

/-- An operand that can be undone stays as it is, or becomes a boolean together with all
that its stores lead to. -/
theorem before_boolean (undoable : origin.Undoable hierarchy scene position above)
    (isCell : origin.frames.cellAt position (above + 1) = some cell)
    (sameCell : state.frames.cellAt position (above + 1) = some cell)
    (closed : scene.ClosedOver origin.frames base)
    (alone : ∀ position slot, (position, slot) ∈ base →
      ∀ store, scene.StoresTo slot store →
      origin.frames.localAt (store + 1) slot ≠ some .boolean)
    (ran : ((before scene position above .boolean : Refine hierarchy _).run state).eval =
      .ok (result, after)) :
    result = cell.type ∧ state.OnlyMarks after ∨
    result = some .boolean ∧ cell.type = some .int ∧ cell.source.isSome = true ∧
      (∃ tried, origin.Converts hierarchy scene state.frames position above base
        tried after) ∧
      ∀ other distance, after.frames.cellAt other distance =
        if other = position ∧ distance = above + 1 then some
          { cell with type := some .boolean }
        else state.frames.cellAt other distance := by
  obtain ⟨depth, isDepth, isOperand⟩ := exists_operand sameCell
  rcases before_eq_ok isOperand ran with
    ⟨rfl, rfl, _⟩ | ⟨stores, middle, nonempty, hasSource, answered, retyped, rfl⟩
  · exact .inl ⟨rfl, .refl after⟩
  have found (store : Nat) : store ∈ stores ↔ _ := mem_stores_iff isDepth answered
  have fedBefore (store : Nat) (member : store ∈ stores) : ∃ slot load,
      Query.FeedsOperand hierarchy scene origin.frames position above slot
          load store := by
    obtain ⟨slot, load, feeds⟩ := (found store).mp member
    exact ⟨slot, load, feeds.of_tried isTried alone⟩
  rcases undoable cell isCell hasSource with
    unfed | ⟨isBoolean, booleans⟩ | ⟨isInt, settled | fresh⟩
  · obtain ⟨store, member⟩ := List.exists_mem_of_ne_nil stores nonempty
    obtain ⟨slot, load, feeds⟩ := fedBefore store member
    exact absurd feeds (unfed slot load store)
  · left
    obtain ⟨rfl, marks⟩ := retypeStores_of_booleans nonempty (fun store member => by
      obtain ⟨slot, load, feeds⟩ := fedBefore store member
      have wasBoolean := booleans slot load store feeds
      exact ⟨slot, Scene.storedAt?_eq_some.mpr
        ⟨feeds.storesTo, isTried.stays wasBoolean⟩⟩) retyped
    exact ⟨isBoolean.symm, marks.retypeCell sameCell isBoolean⟩
  · left
    obtain ⟨rfl, marks⟩ := retypeStores_of_settled inRange isTried nonempty
      (fun store member => by
        obtain ⟨slot, load, feeds⟩ := fedBefore store member
        exact ⟨slot, feeds.storesTo, settled slot load store feeds⟩) retyped
    exact ⟨isInt.symm, marks.retypeCell sameCell isInt⟩
  · right
    obtain ⟨rfl, cells, tried, afterTried, afterClosed, reached, within⟩ :=
      retypeStores_of_fresh inRange isTried nonempty (fun store member => by
        obtain ⟨slot, load, feeds⟩ := fedBefore store member
        exact ⟨slot, feeds.storesTo, (fresh slot load store feeds).1⟩) closed retyped
    refine ⟨rfl, isInt, hasSource, ⟨tried, afterTried.retypeCell .., afterClosed,
      fresh, fun {slot load store} feeds => ?_, fun {other slot} member => ?_⟩,
      fun other distance => ?_⟩
    · exact reached store ((found store).mpr ⟨slot, load, feeds⟩) slot feeds.storesTo
    · rcases within other slot member with member | ⟨store, member, isStore, keeps⟩
      · exact .inl member
      · obtain ⟨_, load, feeds⟩ := fedBefore store member
        cases isStore.symm.trans feeds.storesTo
        exact .inr ⟨load, store, feeds, keeps⟩
    · rw [Option.elim_some, Refinement.cellAt_retypeCell, cells, cells, sameCell]
      rfl

end Tried

/-- An operand that has become a boolean can be taken back, with all that its stores
lead to. -/
theorem frames_restore_converted
    (converts : origin.Converts hierarchy scene origin.frames position above
      ∅ tried state)
    (isCell : origin.frames.cellAt position (above + 1) = some cell)
    (isInt : cell.type = some .int) (hasSource : cell.source.isSome = true)
    (cells : ∀ other distance, state.frames.cellAt other distance =
      if other = position ∧ distance = above + 1 then some
        { cell with type := some .boolean }
      else origin.frames.cellAt other distance)
    (ran :
      ((restore scene position above .int .boolean : Refine hierarchy _).run state).eval =
      .ok ((), after)) :
    after.frames = origin.frames := by
  obtain ⟨depth, isDepth, isOperand⟩ :=
    exists_operand ((cells _ _).trans (if_pos ⟨rfl, rfl⟩))
  rcases restore_eq_ok isOperand ran with
    ⟨noSource, _⟩ | ⟨stores, middle, _, answered, retyped, rfl⟩
  · cases noSource.symm.trans hasSource
  have found (store : Nat) : store ∈ stores ↔ _ := mem_stores_iff isDepth answered
  have feedsStill {slot load store : Nat}
      (feeds : Query.FeedsOperand hierarchy scene origin.frames position above
        slot load store) :
      store ∈ stores := by
    obtain ⟨_, otherLoad, other, otherFeeds, keeps⟩ := converts.fed _ _ _ feeds
    have loadTried := converts.closed.mem_of_keepsInt (converts.reached otherFeeds) keeps
    exact (found store).mpr ⟨slot, load, feeds.to_tried converts.isTried loadTried⟩
  obtain ⟨kept, afterTried, _, back, allBack⟩ := retypeAll_takesBack inRange
    (fun other slot next member leads => by
      obtain ⟨load, store, feeds, keeps⟩ := converts.exists_store member
      exact (converts.fed _ _ _ feeds).1.apart keeps leads)
    (fun store member => by
      obtain ⟨slot, load, feeds⟩ := (found store).mp member
      have feeds := feeds.of_tried converts.isTried fun _ _ member _ =>
        converts.alone member
      exact ⟨slot, feeds.storesTo, converts.reached feeds⟩)
    converts.isTried (fun _ _ _ member isBack => absurd member isBack) retyped
  have noneKept (other slot : Nat) : (other, slot) ∉ kept := by
    intro isKept
    obtain ⟨load, store, feeds, keeps⟩ :=
      converts.exists_store (afterTried.kept_subset isKept)
    have isBack := allBack store (feedsStill feeds) slot feeds.storesTo
    exact back.notMem_of_keepsInt converts.closed (converts.reached feeds)
      isBack keeps isKept
  refine Frames.eq_of_outline
    ((Refinement.outline_retypeCell ..).trans afterTried.outline_eq)
    (fun other slot => ?_) fun other distance => ?_
  · rw [Refinement.localAt_retypeCell, afterTried.same (noneKept other slot)]
  · rw [Refinement.cellAt_retypeCell, cellAt_retypeAll retyped,
      cellAt_retypeAll retyped, cells, cells]
    split
    next here =>
      rw [here.1, here.2, isCell, if_pos ⟨rfl, rfl⟩, Option.map_some, ← isInt]
    next => rfl

/-- An attempt at an operand that can be undone, and its undoing, leave all as it was. -/
theorem frames_restore {first second third : Refinement} {type : ValueType}
    (undoable : origin.Undoable hierarchy scene position above)
    (isCell : origin.frames.cellAt position (above + 1) = some cell)
    (isType : cell.type = some type) (firstMarks : origin.OnlyMarks first)
    (ran : ((before scene position above .boolean : Refine hierarchy _).run first).eval =
      .ok (some .boolean, second))
    (thirdMarks : second.OnlyMarks third)
    (restored : ((restore scene position above type .boolean : Refine hierarchy _).run
      third).eval = .ok ((), after)) :
    after.frames = origin.frames := by
  have starts : origin.Tried ∅ ∅ first := (Refinement.Tried.refl origin).marks firstMarks
  have first_eq := firstMarks.frames_eq
  rcases before_boolean inRange starts undoable isCell (first_eq ▸ isCell)
      (fun _ _ _ => False.elim) (fun _ _ => False.elim) ran with
    ⟨isBoolean, secondMarks⟩ | ⟨_, isInt, hasSource, ⟨tried, converts⟩, cells⟩
  · have unchanged := ((firstMarks.trans secondMarks).trans thirdMarks).frames_eq
    cases isType.symm.trans isBoolean.symm
    refine (frames_restore_of_booleans (fun hasSource slot load store feeds => ?_)
      (unchanged ▸ isCell) isType restored).trans unchanged
    rw [unchanged] at feeds ⊢
    rcases undoable cell isCell hasSource with unfed | ⟨_, booleans⟩ | ⟨isInt, _⟩
    · exact absurd feeds (unfed slot load store)
    · exact booleans slot load store feeds
    · cases isType.symm.trans isInt
  · cases isType.symm.trans isInt
    rw [first_eq] at converts cells
    exact frames_restore_converted inRange
      { converts with isTried := converts.isTried.marks thirdMarks } isCell
        isInt hasSource
      (thirdMarks.frames_eq ▸ cells) restored

end Operand

/-! ## Attempts that are rejected -/

section Rejected

variable (rejected : ((tryBooleans scene position : Refine hierarchy _).run state).eval =
  .ok (false, after))

include rejected

/-- Whether or not an attempt can be undone, it touches no cells but those of the
operands. -/
theorem cellAt_of_rejected {other distance : Nat}
    (elsewhere : other = position → distance ≠ 1 ∧ distance ≠ 2) :
    after.frames.cellAt other distance = state.frames.cellAt other distance := by
  have offRight : ¬(other = position ∧ distance = 0 + 1) := fun here =>
    (elsewhere here.1).1 here.2
  have offLeft : ¬(other = position ∧ distance = 1 + 1) := fun here =>
    (elsewhere here.1).2 here.2
  rcases tryBooleans_eq_false rejected with
    rfl | ⟨_, _, _, _, first, second, _, _, rightRan, leftRan, outcome⟩
  · rfl
  rw [← cellAt_before rightRan offRight, ← cellAt_before leftRan offLeft]
  rcases outcome with ⟨_, _, restored⟩ | ⟨_, _, restored⟩ | ⟨_, _, rfl⟩
  · exact cellAt_restore restored offRight
  · exact cellAt_restore restored offLeft
  · rfl

/-- An attempt at two operands that can be undone changes no frame if it is rejected. -/
theorem frames_of_rejected
    (inRange : ∀ position slot type, state.frames.localAt position slot = some type →
      slot < state.refined.size)
    (undoable : ∀ above, above = 0 ∨ above = 1 →
      state.Undoable hierarchy scene position above) :
    after.frames = state.frames := by
  rcases tryBooleans_eq_false rejected with
    rfl | ⟨right, left, rightResult, leftResult, first, second, isRight, isLeft,
      rightRan, leftRan, outcome⟩
  · rfl
  obtain ⟨rightCell, isRightCell, isRight⟩ := Option.bind_eq_some_iff.mp isRight
  obtain ⟨leftCell, isLeftCell, isLeft⟩ := Option.bind_eq_some_iff.mp isLeft
  have rightUndoable := undoable 0 (.inl rfl)
  have leftUndoable := undoable 1 (.inr rfl)
  have rightCases := before_boolean inRange (.refl state) rightUndoable
    isRightCell isRightCell (fun _ _ _ => False.elim) (fun _ _ => False.elim) rightRan
  -- An operand that is not accepted is left as it is.
  have rightIdle (differs : rightResult ≠ some .boolean) : state.OnlyMarks first :=
    (rightCases.resolve_right fun accepted => differs accepted.1).2
  have leftIdle {base : Set (Nat × Nat)} (differs : leftResult ≠ some .boolean)
      (isTried : state.Tried base base first)
      (closed : scene.ClosedOver state.frames base)
      (alone : ∀ position slot, (position, slot) ∈ base →
        ∀ store, scene.StoresTo slot store →
        state.frames.localAt (store + 1) slot ≠ some .boolean)
      (sameCell : first.frames.cellAt position 2 = some leftCell) :
      first.OnlyMarks second :=
    ((before_boolean inRange isTried leftUndoable isLeftCell sameCell closed alone
      leftRan).resolve_right fun accepted => differs accepted.1).2
  have leftIdleToo (differs : leftResult ≠ some .boolean)
      (firstMarks : state.OnlyMarks first) :
      first.OnlyMarks second :=
    leftIdle differs ((Refinement.Tried.refl state).marks firstMarks)
      (fun _ _ _ => False.elim) (fun _ _ => False.elim) (firstMarks.frames_eq ▸ isLeftCell)
  rcases outcome with
    ⟨rfl, differs, restored⟩ | ⟨differs, rfl, restored⟩ | ⟨differs, alsoDiffers, rfl⟩
  · have secondMarks : first.OnlyMarks second := by
      rcases rightCases with ⟨_, firstMarks⟩ | ⟨_, _, _, ⟨tried, converts⟩, cells⟩
      · exact leftIdleToo differs firstMarks
      · exact leftIdle differs converts.isTried converts.closed
          (fun _ _ member _ => converts.alone member)
          ((cells position 2).trans ((if_neg (by simp)).trans isLeftCell))
    exact frames_restore inRange rightUndoable isRightCell isRight (.refl state) rightRan
      secondMarks restored
  · exact frames_restore inRange leftUndoable isLeftCell isLeft
      (rightIdle differs) leftRan (.refl second) restored
  · have firstMarks := rightIdle differs
    exact (firstMarks.trans (leftIdleToo alsoDiffers firstMarks)).frames_eq

end Rejected

/-- An attempt that is rejected leaves all frames with their outline, and all cells but
those of the operands with their types.  If what it does to each operand can be undone,
it leaves no trace. -/
theorem rejected_attempt_leaves_no_trace
    (inRange : ∀ position slot type, state.frames.localAt position slot = some type →
      slot < state.refined.size)
    (rejected : ((tryBooleans scene position : Refine hierarchy _).run state).eval =
      .ok (false, after)) :
    after.frames.outline = state.frames.outline ∧
      (∀ other distance, (other = position → distance ≠ 1 ∧ distance ≠ 2) →
        after.frames.cellAt other distance = state.frames.cellAt other distance) ∧
      ((∀ above, above = 0 ∨ above = 1 → state.Undoable hierarchy scene position above) →
        after.frames = state.frames) := by
  have keeps :=
    (indifferent_outline hierarchy scene state.frames.outline).tryBooleans position
  exact ⟨((keeps state rfl).1 _ rejected).1, fun _ _ => cellAt_of_rejected rejected,
    frames_of_rejected rejected inRange⟩

/-- A number is combined with a parameter. -/
def clampingBody : Body :=
  .plain [.base .int] 2 2 #[.intConstant 1, .store .int 1, .load .int 1, .load .int 0,
    .logicInt .and, .pop, .returnVoid]

theorem observe_clamping : (do
      let (flow, trimmed) ← Query.observe clampingBody fun flow _ _ trimmed =>
        (flow, trimmed)
      let scene := Scene.ofBody clampingBody flow
      let right ← Query.loadedStores scene trimmed 4 2 .boolean
      let left ← Query.loadedStores scene trimmed 4 1 .boolean
      let (accepted, after) ← (tryBooleans scene 4).run (.start trimmed 2)
      return decide (trimmed.depthAt 4 = some 2 ∧
        (trimmed.cellAt 4 2).bind (·.type) = some .int ∧ trimmed.localAt 2 1 = some .int ∧
        (∀ position < trimmed.size, trimmed.localAt position 1 ≠ some .boolean) ∧
        right = [] ∧ left = [1] ∧ accepted = false ∧
        after.changesOf 2 1 = [⟨2, 1, .boolean, .int⟩, ⟨2, 1, .int, .boolean⟩]) :
      Query ⟨[]⟩ _).eval = .ok true := by
  decide +kernel

/-- The number becomes a boolean, and is an `int` again when the parameter does not
follow. -/
theorem clamping_leaves_no_trace :
    ∃ branches completed flow computed liveness trimmed after,
      Query.Trimming ⟨[]⟩ clampingBody branches completed flow computed liveness trimmed ∧
      (∀ position slot type, trimmed.localAt position slot = some type → slot < 2) ∧
      (∀ above, above = 0 ∨ above = 1 →
        (Refinement.start trimmed 2).Undoable ⟨[]⟩ (.ofBody clampingBody flow) 4 above) ∧
      ((tryBooleans (.ofBody clampingBody flow) 4 : Refine ⟨[]⟩ _).run
        (.start trimmed 2)).eval = .ok (false, after) ∧
      after.changesOf 2 1 = [⟨2, 1, .boolean, .int⟩, ⟨2, 1, .int, .boolean⟩] ∧
      after.frames = trimmed := by
  obtain ⟨⟨flow, trimmed⟩, observed, rest⟩ := Query.eval_bind_eq_ok.mp observe_clamping
  obtain ⟨right, isRight, rest⟩ := Query.eval_bind_eq_ok.mp rest
  obtain ⟨left, isLeft, rest⟩ := Query.eval_bind_eq_ok.mp rest
  obtain ⟨⟨accepted, after⟩, rejected, seen⟩ := Query.eval_bind_eq_ok.mp rest
  obtain ⟨branches, completed, _, computed, liveness, _, trimming, ⟨⟩⟩ :=
    Query.exists_trimming observed
  obtain ⟨isDepth, isType, isInt, notBoolean, rfl, rfl, rfl, changes⟩ :=
    of_decide_eq_true (Except.ok.inj seen)
  have inRange : ∀ position slot type, trimmed.localAt position slot = some type →
      slot < 2 :=
    fun _ _ _ => trimming.lt_maxLocals
  have alone (position : Nat) : trimmed.localAt position 1 ≠ some .boolean := by
    intro held
    obtain ⟨_, there, _⟩ := Frames.localAt_eq_some.mp held
    exact notBoolean position (Frames.lt_size_of_at? there) held
  have undoable : ∀ above, above = 0 ∨ above = 1 →
      (Refinement.start trimmed 2).Undoable ⟨[]⟩ (.ofBody clampingBody flow) 4 above := by
    rintro _ (rfl | rfl) cell isCell _
    · refine .inl fun slot load store feeds => ?_
      cases (mem_stores_iff isDepth isRight).mpr ⟨slot, load, feeds⟩
    · rw [show trimmed.cellAt 4 2 = some cell from isCell] at isType
      refine .inr (.inr ⟨isType, .inr fun slot load store feeds => ?_⟩)
      cases List.mem_singleton.mp ((mem_stores_iff isDepth isLeft).mpr
        ⟨slot, load, feeds⟩)
      cases feeds.storesTo
      have isLoad : load = 2 := by
        obtain ⟨_, _, _, _, ⟨_, _, _, _, isLoad, _⟩, _⟩ := feeds
        have loads : ∀ load < clampingBody.instructions.size,
            clampingBody.instructions[load]?.bind Instruction.loaded? = some 1 →
                load = 2 := by
          decide
        exact loads load (Array.getElem?_eq_some_iff.mp isLoad).1
          (Option.bind_eq_some_iff.mpr ⟨_, isLoad, rfl⟩)
      subst isLoad
      refine ⟨⟨isInt, fun _ => by simp, fun _ _ => alone _, fun _ => alone _⟩, 2,
        1, feeds, isInt, .refl⟩
  exact ⟨branches, completed, flow, computed, liveness, trimmed, after, trimming,
    inRange, undoable, rejected, changes,
      (rejected_attempt_leaves_no_trace inRange rejected).2.2 undoable⟩

/-- All passes, of which the last one stops at a position. -/
def passesUntil (scene : Scene) (position : Nat) : Refine hierarchy Unit := do
  pass scene (applyContext scene)
  pass scene (applyRestriction scene)
  pass { scene with instructions := scene.instructions.take position } (applyLogic scene)

theorem passesUntil_size (scene : Scene) :
    (passesUntil scene scene.instructions.size : Refine hierarchy Unit) =
      passes scene := by
  simp [passesUntil, passes]

theorem observe_masked : (do
      let (flow, trimmed) ← Query.observe Query.maskingBody fun flow _ _ trimmed =>
        (flow, trimmed)
      let scene := Scene.ofBody Query.maskingBody flow
      let ((), before) ← (passesUntil scene 9).run (.start trimmed 2)
      let (accepted, after) ← (tryBooleans scene 9).run before
      return decide (accepted = false ∧ before.frames.localAt 2 0 = some .boolean ∧
        after.frames.localAt 2 0 = some .int) : Query ⟨[]⟩ _).eval = .ok true := by
  decide +kernel

/-- The branch has made the flag a boolean, but its cell is an `int` still.  When the
number does not become a boolean as well, the flag gets the type of its cell. -/
theorem masked_flag_lost :
    ∃ branches completed flow computed liveness trimmed before after,
      Query.Trimming ⟨[]⟩ Query.maskingBody branches completed flow computed
        liveness trimmed ∧
      Query.maskingBody.instructions[9]? = some (.logicInt .and) ∧
      ((passesUntil (.ofBody Query.maskingBody flow) 9 : Refine ⟨[]⟩ _).run
        (.start trimmed 2)).eval = .ok ((), before) ∧
      ((tryBooleans (.ofBody Query.maskingBody flow) 9 : Refine ⟨[]⟩ _).run before).eval =
        .ok (false, after) ∧
      before.frames.localAt 2 0 = some .boolean ∧
      after.frames.localAt 2 0 = some .int := by
  obtain ⟨⟨flow, trimmed⟩, observed, rest⟩ := Query.eval_bind_eq_ok.mp observe_masked
  obtain ⟨⟨_, before⟩, passed, rest⟩ := Query.eval_bind_eq_ok.mp rest
  obtain ⟨⟨accepted, after⟩, rejected, seen⟩ := Query.eval_bind_eq_ok.mp rest
  obtain ⟨branches, completed, _, computed, liveness, _, trimming, ⟨⟩⟩ :=
    Query.exists_trimming observed
  obtain ⟨rfl, wasBoolean, isInt⟩ := of_decide_eq_true (Except.ok.inj seen)
  exact ⟨branches, completed, flow, computed, liveness, trimmed, before, after,
    trimming, rfl, passed, rejected, wasBoolean, isInt⟩

end Refine

end LocalTable
