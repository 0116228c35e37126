import LocalTable.Proofs.Refine
import LocalTable.Refine.Rules

/-!
# Stores that are refined

The stores that are found for an operand hold types that are kin to the one that is
expected of it, and so does what they have in common.  Stores are found only where the
operand may have been loaded from a local of such a type.

All this holds for every kinship of types: for families, and for types that are alike.
-/

namespace LocalTable

/-- What a refinement starts from: computed frames, their trimmed form, and the fact
that no store leaves an upper half in its slot, or one missing there. -/
structure Scene.Setting (scene : Scene) (maxLocals : Nat) (liveness : Liveness)
    (computed trimmed : Frames) : Prop where
  shaped : Query.AllFrames (Frame.Shaped maxLocals) computed
  trims : computed.TrimmedTo liveness trimmed
  stores {store slot : Nat} {frame : Frame}
    (isStore : scene.instructions[store]?.bind Instruction.stored? = some slot)
    (there : trimmed.at? (store + 1) = some frame) :
    frame.localAt slot ≠ some .top ∧ ¬frame.AboveWide slot

variable {hierarchy : Hierarchy} {scene : Scene} {maxLocals : Nat} {liveness : Liveness}
  {computed trimmed current : Frames} {R K : ValueType → ValueType → Prop}
  {tracked : Nat → Prop}

theorem Instruction.exists_kind {instruction : Instruction} {slot : Nat}
    (stored : instruction.stored? = some slot) :
    ∃ kind, instruction = .store kind slot := by
  cases instruction with
  | store kind _ =>
      cases stored
      exact ⟨kind, rfl⟩
  | _ => cases stored

namespace Scene

/-- Where a computed frame holds no upper half, the trimmed one holds none and lacks
none. -/
theorem Setting.of_computed (shaped : Query.AllFrames (Frame.Shaped maxLocals) computed)
    (trims : computed.TrimmedTo liveness trimmed)
    (stores : ∀ store slot, scene.instructions[store]?.bind
      Instruction.stored? = some slot → computed.localAt (store + 1) slot ≠ some .top) :
    scene.Setting maxLocals liveness computed trimmed := by
  refine ⟨shaped, trims, fun {store slot frame} isStore there => ?_⟩
  obtain ⟨old, isOld, frameTrims⟩ := trims.exists_original there
  have notTop (isTop : old.localAt slot = some .top) : False :=
    stores store slot isStore (Frames.localAt_eq_some.mpr ⟨old, isOld, isTop⟩)
  refine ⟨fun isTop => ?_, fun above => notTop
    (frameTrims.upper (shaped _ _ isOld) above).1⟩
  rcases frameTrims.locals slot with same | isEmpty
  · exact notTop (same.symm.trans isTop)
  · cases isEmpty.symm.trans isTop

theorem storedAt?_eq_some {frames : Frames} {store slot : Nat} {type : ValueType} :
    scene.storedAt? frames store = some (slot, type) ↔
      scene.instructions[store]?.bind Instruction.stored? = some slot ∧
        frames.localAt (store + 1) slot = some type := by
  simp only [storedAt?, bind, pure, Option.bind_eq_some_iff, Option.some.injEq,
    Prod.mk.injEq]
  constructor
  · rintro ⟨_, isStore, _, held, rfl, rfl⟩
    exact ⟨isStore, held⟩
  · rintro ⟨isStore, held⟩
    exact ⟨slot, isStore, type, held, rfl, rfl⟩

variable {position store slot : Nat} {type expected : ValueType}

/-- A refined local is related to the computed one. -/
theorem Setting.exists_computed
    (setting : scene.Setting maxLocals liveness computed trimmed) (lenient : Lenient R)
    (refines : Frames.RefinesTo R K tracked computed trimmed current)
    (held : current.localAt position slot = some type) :
    ∃ before, computed.localAt position slot = some before ∧ R type before := by
  rcases refines.known held with
    ⟨before, isBefore, related⟩ | ⟨rfl, middle, isMiddle, above⟩
  · exact ⟨before, setting.trims.localAt isBefore, related⟩
  · obtain ⟨old, isOld, frameTrims⟩ := setting.trims.exists_original isMiddle
    have isUpper := (frameTrims.upper (setting.shaped _ _ isOld) above).1
    exact ⟨.top, Frames.localAt_eq_some.mpr ⟨old, isOld, isUpper⟩,
      lenient.of_sameFamily (.refl .top)⟩

/-- What a store leaves in its slot is a value, related to the trimmed one. -/
theorem Setting.exists_trimmed
    (setting : scene.Setting maxLocals liveness computed trimmed) (lenient : Lenient R)
    (refines : Frames.RefinesTo R K tracked computed trimmed current)
    (isStore : scene.instructions[store]?.bind Instruction.stored? = some slot)
    (held : current.localAt (store + 1) slot = some type) :
    type ≠ .top ∧ ∃ before, trimmed.localAt (store + 1) slot = some before ∧
      R type before := by
  rcases refines.known held with
    ⟨before, isBefore, related⟩ | ⟨_, middle, isMiddle, above⟩
  · refine ⟨fun isTop => ?_, before, isBefore, related⟩
    obtain ⟨middle, isMiddle, isBefore⟩ := Frames.localAt_eq_some.mp isBefore
    rw [(lenient.top_iff related).mp isTop] at isBefore
    exact (setting.stores isStore isMiddle).1 isBefore
  · exact absurd above (setting.stores isStore isMiddle).2

/-- The slot of the store has a value behind it, of a type that is kin to the given
one. -/
def Fits (K : ValueType → ValueType → Prop) (scene : Scene) (trimmed : Frames)
    (type : ValueType) (store : Nat) : Prop :=
  ∃ slot stored, scene.instructions[store]?.bind Instruction.stored? = some slot ∧
    trimmed.localAt (store + 1) slot = some stored ∧ K stored type

/-- Whatever fits one store is kin. -/
theorem Fits.kin {other : ValueType} (kinship : ValueType.Kinship K)
    (fits : scene.Fits K trimmed type store)
    (otherFits : scene.Fits K trimmed other store) :
    K type other := by
  obtain ⟨slot, stored, isStore, held, kin⟩ := fits
  obtain ⟨_, _, alsoStore, alsoHeld, otherKin⟩ := otherFits
  cases isStore.symm.trans alsoStore
  cases held.symm.trans alsoHeld
  exact kinship.trans (kinship.symm kin) otherKin

theorem Fits.of_kin {other : ValueType} (kinship : ValueType.Kinship K)
    (fits : scene.Fits K trimmed type store) (kin : K type other) :
    scene.Fits K trimmed other store := by
  obtain ⟨slot, stored, isStore, held, storedKin⟩ := fits
  exact ⟨slot, stored, isStore, held, kinship.trans storedKin kin⟩

/-- The type that is behind a store fits it. -/
theorem Setting.fits (setting : scene.Setting maxLocals liveness computed trimmed)
    (kinship : ValueType.Kinship K)
    (refines : Frames.RefinesTo K K tracked computed trimmed current)
    (isStored : scene.storedAt? current store = some (slot, type)) :
    type ≠ .top ∧ scene.Fits K trimmed type store := by
  obtain ⟨isStore, held⟩ := storedAt?_eq_some.mp isStored
  obtain ⟨isValue, before, isBefore, kin⟩ :=
    setting.exists_trimmed kinship.lenient refines isStore held
  exact ⟨isValue, slot, before, isStore, isBefore, kinship.symm kin⟩

/-- Positions behind which a value at a height of the stack may have been pushed: one
looks back from a position as long as the stack is high enough. -/
inductive Behind (scene : Scene) (frames : Frames) (width height position : Nat) :
    Nat → Prop where
  | before {source : Nat} (isBefore : source ∈ scene.flow.predecessors position) :
      Behind scene frames width height position source
  | further {middle source : Nat} {frame : Frame} {instruction : Instruction}
      (behind : Behind scene frames width height position middle)
      (there : frames.at? middle = some frame)
      (found : scene.instructions[middle]? = some instruction)
      (stays : height ≤ frame.depth ∨
        frame.depth + width = height ∧ instruction.isPseudo = true)
      (isBefore : source ∈ scene.flow.predecessors middle) :
      Behind scene frames width height position source

/-- The value at a height of the stack may have been loaded from a local of a type
that is kin to the expected one. -/
def LoadedByKin (K : ValueType → ValueType → Prop) (scene : Scene) (frames : Frames)
    (position height : Nat) (expected : ValueType) : Prop :=
  ∃ source frame kind slot type,
    scene.Behind frames expected.width height position source ∧
      frames.at? source = some frame ∧ frame.depth + expected.width = height ∧
      scene.instructions[source]? = some (.load kind slot) ∧
      frame.localAt slot = some type ∧ K type expected

/-- The value at a height of the stack may have been loaded from a local of a type
like the expected one. -/
def LoadedFrom (scene : Scene) (frames : Frames) (position height : Nat)
    (expected : ValueType) :
    Prop :=
  ∃ source frame kind slot type,
    scene.Behind frames expected.width height position source ∧
      frames.at? source = some frame ∧ frame.depth + expected.width = height ∧
      scene.instructions[source]? = some (.load kind slot) ∧
      frame.localAt slot = some type ∧ type.Alike expected

end Scene

/-! ## Stores that are found -/

namespace Query

variable {position slot height : Nat} {type expected : ValueType}

theorem isCompatible_guarantees (kinship : ValueType.Kinship K) :
    (isCompatible type expected : Query hierarchy _).Guarantees Error.Frameless
      fun fits => fits = true → K type expected := by
  refine ⟨?_, failsOnly_isCompatible Error.frameless_tolerates.missing _ _⟩
  rintro _ answered rfl
  exact kinship.of_sameFamily (sameFamily_of_isCompatible answered)

theorem mem_foldl_appendNew {added positions : List Nat} {position : Nat} :
    position ∈ added.foldl Flow.appendNew positions ↔ position ∈ positions ∨
    position ∈ added := by
  induction added generalizing positions with
  | nil => simp
  | cons head rest ih =>
      rw [List.foldl_cons, ih, Flow.mem_appendNew, List.mem_cons, or_assoc]

section Setting

variable (setting : scene.Setting maxLocals liveness computed trimmed)
  (kinship : ValueType.Kinship K)
  (refines : Frames.RefinesTo K K tracked computed trimmed current)

include setting kinship refines

theorem reachingStores_guarantees :
    (reachingStores scene current position slot type expected :
      Query hierarchy _).Guarantees
      Error.Frameless fun stores => ∀ store ∈ stores,
        scene.Fits K trimmed expected store := by
  refine Walk.run_holds (Guarantees Error.Frameless) .pure .bind
    (R := fun _ => True) (S := fun stores => ∀ store ∈ stores,
      scene.Fits K trimmed expected store)
    ?_ (fun _ _ => trivial) nofun
  intro store stores _ allFit
  have stops {onward : List Nat} :
      (return (stores, onward) : Query hierarchy _).Guarantees
      Error.Frameless fun visited : List Nat × List Nat =>
        (∀ store ∈ visited.1, scene.Fits K trimmed expected store) ∧
            ∀ next ∈ visited.2, True :=
    .pure ⟨allFit, fun _ _ => trivial⟩
  unfold visitForStore
  split
  next isStore =>
    split
    next => exact stops
    next stored held =>
      have fitsStored :=
        (setting.fits kinship refines (Scene.storedAt?_eq_some.mpr ⟨isStore, held⟩)).2
      refine .bind (isCompatible_guarantees kinship) fun fitsLocal _ => ?_
      split
      next =>
        refine .bind (isCompatible_guarantees kinship) fun fits isKin => ?_
        split
        next isFitting =>
          refine .pure ⟨fun other member => ?_, fun _ _ => trivial⟩
          rcases List.mem_append.mp member with member | member
          · exact allFit other member
          · rw [List.mem_singleton.mp member]
            exact fitsStored.of_kin kinship (isKin isFitting)
        next => exact stops
      next => exact stops
  next => exact stops

theorem storesOfLoad_guarantees {frame : Frame} {instruction : Instruction} :
    (storesOfLoad scene current position frame instruction expected :
      Query hierarchy _).Guarantees
      Error.Frameless fun stores =>
        (∀ store ∈ stores, scene.Fits K trimmed expected store) ∧
        (stores ≠ [] → ∃ kind slot type, instruction = .load kind slot ∧
          frame.localAt slot = some type ∧ K type expected) := by
  have nothing : (return [] : Query hierarchy (List Nat)).Guarantees
      Error.Frameless fun stores =>
      (∀ store ∈ stores, scene.Fits K trimmed expected store) ∧
        (stores ≠ [] → ∃ kind slot type, instruction = .load kind slot ∧
          frame.localAt slot = some type ∧ K type expected) :=
    .pure ⟨nofun, fun nonempty => absurd rfl nonempty⟩
  unfold storesOfLoad
  split
  next kind slot =>
    split
    next => exact nothing
    next type held =>
      refine .bind (isCompatible_guarantees kinship) fun fits isKin => ?_
      split
      next isFitting =>
        refine (reachingStores_guarantees setting kinship refines).mono
          fun stores allFit => ?_
        exact ⟨allFit, fun _ => ⟨kind, slot, type, rfl, held, isKin isFitting⟩⟩
      next => exact nothing
  next => exact nothing

/-- Stores are found only if the value may have been loaded from a local of a fitting
type. -/
theorem loadedStores_guarantees :
    (loadedStores scene current position height expected : Query hierarchy _).Guarantees
      Error.Frameless fun stores =>
        (∀ store ∈ stores, scene.Fits K trimmed expected store) ∧
        (stores ≠ [] → scene.LoadedByKin K computed position height expected) := by
  refine Walk.run_holds (Guarantees Error.Frameless) .pure .bind
    (R := scene.Behind computed expected.width height position) ?_ ?_
    ⟨nofun, fun nonempty => absurd rfl nonempty⟩
  · intro source stores behind ⟨allFit, loaded⟩
    have stops : (return (stores, []) : Query hierarchy (List Nat × List Nat)).Guarantees
        Error.Frameless fun visited =>
        ((∀ store ∈ visited.1, scene.Fits K trimmed expected store) ∧
          (visited.1 ≠ [] → scene.LoadedByKin K computed position height expected)) ∧
        ∀ next ∈ visited.2, scene.Behind computed expected.width height position next :=
      .pure ⟨⟨allFit, loaded⟩, nofun⟩
    unfold visitForLoad
    split
    next new instruction isNew found =>
      obtain ⟨old, middle, isOld, isMiddle, frameRefines⟩ := refines.exists_old isNew
      have depth_eq : old.depth = new.depth := frameRefines.cells.length_eq
      split
      next isHeight =>
        refine .bind (storesOfLoad_guarantees setting kinship refines) ?_
        intro reaching ⟨reachingFit, isLoad⟩
        have more : (∀ store ∈ reaching.foldl Flow.appendNew stores,
              scene.Fits K trimmed expected store) ∧
            (reaching.foldl Flow.appendNew stores ≠ [] →
              scene.LoadedByKin K computed position height expected) := by
          refine ⟨fun store member => ?_, fun nonempty => ?_⟩
          · exact (mem_foldl_appendNew.mp member).elim (allFit store) (reachingFit store)
          · obtain ⟨store, member⟩ := List.exists_mem_of_ne_nil _ nonempty
            rcases mem_foldl_appendNew.mp member with member | member
            · exact loaded (List.ne_nil_of_mem member)
            · obtain ⟨kind, slot, type, rfl, held, isKin⟩ :=
                isLoad (List.ne_nil_of_mem member)
              obtain ⟨before, isBefore, kin⟩ :=
                setting.exists_computed kinship.lenient refines
                (Frames.localAt_eq_some.mpr ⟨new, isNew, held⟩)
              obtain ⟨_, alsoOld, isBefore⟩ := Frames.localAt_eq_some.mp isBefore
              cases isOld.symm.trans alsoOld
              exact ⟨source, old, kind, slot, before, behind, isOld,
                depth_eq ▸ isHeight, found, isBefore,
                  kinship.trans (kinship.symm kin) isKin⟩
        dsimp only
        split
        next isPseudo =>
          refine .pure ⟨more, fun next isBefore => ?_⟩
          exact .further behind isOld found
            (.inr ⟨depth_eq ▸ isHeight, isPseudo⟩) isBefore
        next => exact .pure ⟨more, nofun⟩
      next =>
        split
        next => exact stops
        next isHigh =>
          refine .pure ⟨⟨allFit, loaded⟩, fun next isBefore => ?_⟩
          exact .further behind isOld found
            (.inl (depth_eq ▸ Nat.le_of_not_lt isHigh)) isBefore
    next => exact stops
  · intro source member
    exact .before (List.mem_reverse.mp member)

omit setting refines in
theorem joinAll_guarantees {common : ValueType} {types : List ValueType}
    (isCommon : K common expected) :
    (commonStored.joinAll common types : Query hierarchy _).Guarantees Error.Frameless
      fun result => ∀ type, result = some type → K type expected := by
  induction types generalizing common with
  | nil =>
      apply Guarantees.pure
      rintro _ ⟨⟩
      exact isCommon
  | cons type rest ih =>
      refine .bind (P := fun joined => ∀ result, joined = some result → K result expected)
        ⟨?_, failsOnly_join Error.frameless_tolerates.missing _ _⟩
          fun joined isJoined => ?_
      · rintro _ answered result rfl
        have kin := kinship.of_sameFamily (sameFamily_of_join answered).1
        exact kinship.trans (kinship.symm kin) isCommon
      · cases joined with
        | none => exact .pure nofun
        | some joined => exact ih (isJoined joined rfl)

/-- What fitting stores have in common fits each of them. -/
theorem commonStored_guarantees {stores : List Nat}
    (allFit : ∀ store ∈ stores, scene.Fits K trimmed expected store) :
    (commonStored scene current stores : Query hierarchy _).Guarantees Error.Frameless
      fun result => ∀ common, result = some common →
        ∀ store ∈ stores, scene.Fits K trimmed common store := by
  unfold commonStored
  dsimp only
  split
  next isEmpty =>
    -- Only null is stored, and null is kin to whatever the refinement makes of it.
    apply Guarantees.pure
    rintro _ ⟨⟩ store member
    obtain ⟨slot, type, isStore, held, _⟩ := allFit store member
    obtain ⟨stored, isStored, _⟩ := refines.kept setting.trims held
    have found := Scene.storedAt?_eq_some.mpr ⟨isStore, isStored⟩
    have isNull : stored = .null := by
      have dropped := List.filterMap_eq_nil_iff.mp isEmpty store member
      simpa [found, Option.filter] using dropped
    exact isNull ▸ (setting.fits kinship refines found).2
  next first rest isTypes =>
    have isFirst : K first expected := by
      have member : first ∈ stores.filterMap fun store =>
          ((scene.storedAt? current store).map Prod.snd).filter (· != .null) :=
        isTypes ▸ List.mem_cons_self ..
      obtain ⟨store, isStore, kept⟩ := List.mem_filterMap.mp member
      obtain ⟨kept, _⟩ := Option.filter_eq_some_iff.mp kept
      obtain ⟨⟨slot, type⟩, found, rfl⟩ := Option.map_eq_some_iff.mp kept
      exact (setting.fits kinship refines found).2.kin kinship (allFit store isStore)
    refine (joinAll_guarantees kinship isFirst).mono
      fun result isResult common isCommon => ?_
    intro store member
    exact (allFit store member).of_kin kinship (kinship.symm (isResult common isCommon))

end Setting

end Query

/-! ## Stores that get a type -/

namespace Refine

variable {position above : Nat} {expected : ValueType} {stores : List Nat}

/-- The invariant of the passes. -/
abbrev Invariant (K : ValueType → ValueType → Prop) (tracked : Nat → Prop)
    (computed trimmed : Frames) : Refinement → Prop :=
  Refinement.Refines K K tracked computed trimmed

section Setting

variable (setting : scene.Setting maxLocals liveness computed trimmed)
  (kinship : ValueType.Kinship K)

include setting kinship

/-- A type that fits a store can be given to it. -/
theorem retypeStore_maintains {store slot : Nat} {stored type : ValueType}
    {refinement : Refinement} (refines : Invariant K tracked computed trimmed refinement)
    (isStored : scene.storedAt? refinement.frames store = some (slot, stored))
    (fits : scene.Fits K trimmed type store) :
    Maintains Error.Frameless (Invariant K tracked computed trimmed)
      (retypeFrom scene (store + 1) slot stored type : Refine hierarchy _) fun _ =>
        True := by
  obtain ⟨isValue, storedFits⟩ := setting.fits kinship refines.frames isStored
  exact retypeFrom_maintains Error.frameless_tolerates
    (Refinement.Refines.accepts kinship.lenient setting.shaped setting.trims isValue)
    (fits.kin kinship storedFits)

/-- A type that fits all stores can be given to them. -/
theorem retypeAll_maintains {type : ValueType}
    (allFit : ∀ store ∈ stores, scene.Fits K trimmed type store) :
    Maintains Error.Frameless (Invariant K tracked computed trimmed)
      (retypeAll scene stores type : Refine hierarchy _) fun _ => True := by
  refine .forM fun store member => .bind .get fun refinement refines => ?_
  split
  next slot stored found =>
    exact retypeStore_maintains setting kinship refines found (allFit store member)
  next => exact .pure trivial

/-- Stores that fit a type can be refined with it, and what they end up with fits them. -/
theorem retypeStores_maintains
    (allFit : ∀ store ∈ stores, scene.Fits K trimmed expected store) :
    Maintains Error.Frameless (Invariant K tracked computed trimmed)
      (retypeStores scene stores expected : Refine hierarchy _) fun result =>
        ∀ type, result = some type → ∀ store ∈ stores,
          scene.Fits K trimmed type store := by
  unfold retypeStores
  refine .bind .get fun refinement refines => ?_
  refine .bind
    (.ask (Query.commonStored_guarantees setting kinship refines.frames allFit))
    fun common isCommon => ?_
  split
  next => exact .pure nofun
  next common =>
    have commonFits := isCommon common rfl
    refine .bind (P := fun _ => True) (retypeAll_maintains setting kinship ?_) fun _ _ =>
      ?_
    · intro store member
      split
      next should =>
        exact (commonFits store member).of_kin kinship
          (kinship.of_sameFamily (sameFamily_of_shouldRetype should))
      next => exact commonFits store member
    · refine .bind .get fun later laterRefines => ?_
      exact .ask (Query.commonStored_guarantees setting kinship
        laterRefines.frames allFit)

end Setting

end Refine

end LocalTable
