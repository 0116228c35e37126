import LocalTable.Proofs.Alike
import LocalTable.Proofs.Trim
import LocalTable.Proofs.Walk

/-!
# Refined frames

A refinement gives locals new types and leaves everything else as it is.  The new
types are like those that the trimmed frames have, so a local that holds a value
there holds one after the refinement as well.

Actions that refine frames are described by an invariant of the refinement that
they maintain, by a condition on their results, and by the failures that they may
end with.
-/

namespace LocalTable

namespace Refine

variable {hierarchy : Hierarchy} {α β : Type} {E : Error → Prop} {I : Refinement → Prop}

/-- Where the invariant holds, the action keeps it, and its result satisfies the
condition, unless it fails in one of the allowed ways. -/
def Maintains (E : Error → Prop) (I : Refinement → Prop) (action : Refine hierarchy α)
    (Q : α → Prop) : Prop :=
  ∀ before, I before → (action.run before).Guarantees E fun outcome =>
    I outcome.2 ∧ Q outcome.1

namespace Maintains

variable {action : Refine hierarchy α} {P Q : α → Prop}

theorem pure {value : α} (holds : Q value) :
    Maintains E I (pure value : Refine hierarchy α) Q := by
  intro before invariant
  exact Query.Guarantees.pure ⟨invariant, holds⟩

theorem bind {next : α → Refine hierarchy β} {R : β → Prop}
    (first : Maintains E I action P)
    (second : ∀ value, P value → Maintains E I (next value) R) :
    Maintains E I (action >>= next) R := by
  intro before invariant
  refine Query.Guarantees.bind (first before invariant) ?_
  intro outcome holds
  exact second outcome.1 holds.2 outcome.2 holds.1

theorem get : Maintains E I (get : Refine hierarchy Refinement) I := by
  intro before invariant
  exact Query.Guarantees.pure ⟨invariant, invariant⟩

theorem set {refinement : Refinement} (invariant : I refinement) :
    Maintains E I (set refinement : Refine hierarchy Unit) fun _ => True := by
  intro before _
  exact Query.Guarantees.pure ⟨invariant, trivial⟩

theorem modify {change : Refinement → Refinement}
    (kept : ∀ before, I before → I (change before)) :
    Maintains E I (modify change : Refine hierarchy Unit) fun _ => True := by
  intro before invariant
  exact Query.Guarantees.pure ⟨kept before invariant, trivial⟩

theorem ask {query : Query hierarchy α} (guarantees : query.Guarantees E Q) :
    Maintains E I (Refine.ask query) Q := by
  intro before invariant
  refine Query.Guarantees.bind guarantees ?_
  intro value holds
  exact Query.Guarantees.pure ⟨invariant, holds⟩

theorem forM {items : List β} {step : β → Refine hierarchy Unit}
    (each : ∀ item ∈ items, Maintains E I (step item) fun _ => True) :
    Maintains E I (items.forM step) fun _ => True := by
  induction items with
  | nil => exact pure trivial
  | cons item rest ih =>
      obtain ⟨first, others⟩ := List.forall_mem_cons.mp each
      exact bind first fun _ _ => ih others

end Maintains

end Refine

/-! ## Spreading a type -/

section Spreading

variable {hierarchy : Hierarchy} {E : Error → Prop} {I : Refinement → Prop} {slot : Nat}
  {expected : ValueType} {R : ValueType → Prop}

/-- A class may be missing, and a loop may fail to settle. -/
structure Error.Tolerates (E : Error → Prop) : Prop where
  missing (name : BinaryName) : E (.unresolvedClass name)
  unsettled : E .unsettled

/-- Types that a local of the expected type can get, at any position, while the invariant
is kept. -/
structure Refine.Accepts (hierarchy : Hierarchy) (E : Error → Prop)
    (I : Refinement → Prop) (slot : Nat) (expected : ValueType)
    (R : ValueType → Prop) : Prop where
  same : R expected
  join {type joined : ValueType} (accepted : R type)
    (answered : (Query.join type expected : Query hierarchy _).eval = .ok (some joined)) :
    R joined
  mark {refinement : Refinement} (position : Nat) (holds : I refinement) :
    I (refinement.markRefined position slot)
  retype {refinement : Refinement} {position : Nat} {type : ValueType}
    (holds : I refinement)
    (held : refinement.frames.localAt position slot = some expected) (accepted : R type) :
    (Query.ofExcept (refinement.retype position slot expected type) :
      Query hierarchy _).Guarantees E I

theorem Query.spreadStep_guarantees {flow : Flow} {spreading : Spreading}
    (missing : ∀ name, E (.unresolvedClass name))
    (accepts : Refine.Accepts hierarchy E I slot expected R)
    (holds : I spreading.refinement) (accepted : ∀ next ∈ spreading.pending, R next.2) :
    (spreadStep flow slot expected spreading : Query hierarchy _).Guarantees E
      (Sum.elim (fun spreading => I spreading.refinement ∧
        ∀ next ∈ spreading.pending, R next.2) I) := by
  -- However the new type came about, the local can get it.
  have goes {refinement : Refinement} {position : Nat} {type : ValueType}
      {rest : List (Nat × ValueType)} (holds : I refinement)
      (held : refinement.frames.localAt position slot = some expected)
      (isAccepted : R type) (restAccepted : ∀ next ∈ rest, R next.2) :
      (spreadStep.go flow slot expected refinement position type rest :
        Query hierarchy _).Guarantees
        E (Sum.elim
          (fun spreading => I spreading.refinement ∧
              ∀ next ∈ spreading.pending, R next.2) I) := by
    unfold spreadStep.go
    refine .bind (accepts.retype holds held isAccepted) fun changed changedHolds => ?_
    refine .pure ⟨changedHolds, fun next member => ?_⟩
    rcases List.mem_append.mp member with member | member
    · obtain ⟨_, _, rfl⟩ := List.mem_map.mp (List.mem_reverse.mp member)
      exact isAccepted
    · exact restAccepted next member
  unfold spreadStep
  split
  next => exact .pure holds
  next position type rest pending_eq =>
    obtain ⟨isAccepted, restAccepted⟩ := List.forall_mem_cons.mp (pending_eq ▸ accepted)
    dsimp only
    split
    next => exact .pure ⟨holds, restAccepted⟩
    next held =>
      have held := Decidable.not_not.mp held
      split
      next => exact goes (accepts.mark position holds) held isAccepted restAccepted
      next =>
        split
        next => exact .pure ⟨holds, restAccepted⟩
        next =>
          refine .bind (P := fun joined => R (joined.getD expected))
            ⟨?_, failsOnly_join missing _ _⟩ fun joined joinedAccepted => ?_
          · intro joined answered
            cases joined with
            | none => exact accepts.same
            | some joined => exact accepts.join isAccepted answered
          · exact goes holds held joinedAccepted restAccepted

/-- Spreading a type that the local can get keeps the invariant. -/
theorem Refine.retypeFrom_maintains {scene : Scene} {position : Nat} {type : ValueType}
    (tolerates : Error.Tolerates E) (accepts : Accepts hierarchy E I slot expected R)
    (accepted : R type) :
    Maintains E I (retypeFrom scene position slot expected type : Refine hierarchy Unit)
      fun _ => True := by
  unfold retypeFrom
  refine .bind .get fun refinement holds => ?_
  split
  next =>
    refine .bind (P := I) (.ask ?_) fun changed changedHolds => .set changedHolds
    refine Query.Guarantees.iterate (P := fun spreading =>
      I spreading.refinement ∧ ∀ next ∈ spreading.pending, R next.2) tolerates.unsettled
      ⟨holds, fun next member => ?_⟩ fun spreading ⟨spreadingHolds, allAccepted⟩ =>
        Query.spreadStep_guarantees tolerates.missing accepts spreadingHolds allAccepted
    rw [List.mem_singleton.mp member]
    exact accepted
  next => exact .pure trivial

end Spreading

/-! ## The invariant of a refinement -/

/-- A relation between types that allows changes inside a slot, but none that would
make an upper half a value, or a value wide. -/
structure Lenient (R : ValueType → ValueType → Prop) : Prop where
  of_sameFamily {left right : ValueType} (same : left.SameFamily right) : R left right
  trans {left middle right : ValueType} (first : R left middle)
    (second : R middle right) :
    R left right
  top_iff {left right : ValueType} (related : R left right) : left = .top ↔ right = .top
  wide {left right : ValueType} (related : R left right) (isWide : left.width = 2) :
    right.width = 2

variable {R K : ValueType → ValueType → Prop} {maxLocals : Nat}

theorem ValueType.Kinship.lenient (kinship : Kinship K) : Lenient K :=
  ⟨kinship.of_sameFamily, kinship.trans, fun kin => (kinship.alike kin).top_iff,
    fun kin => (kinship.alike kin).width_eq.symm.trans⟩

/-- The slot is right above a wide value. -/
def Frame.AboveWide (frame : Frame) (slot : Nat) : Prop :=
  ∃ below type, slot = below + 1 ∧ frame.localAt below = some type ∧ type.width = 2

/-- The current frame is the computed one with new types for cells and for the
locals of the trimmed frame.  Only upper halves of wide values may have come back.
Types of cells are tracked where they matter. -/
structure Frame.RefinesTo (R K : ValueType → ValueType → Prop) (tracked : Prop)
    (computed trimmed current : Frame) : Prop where
  size_eq : current.locals.size = computed.locals.size
  cells : List.Forall₂ (fun (old new : Cell) => new.source = old.source ∧
    (tracked → Option.Rel K new.type old.type)) computed.stack current.stack
  kept {slot : Nat} {type : ValueType} (held : trimmed.localAt slot = some type) :
    ∃ refined, current.localAt slot = some refined ∧ R refined type
  known {slot : Nat} {refined : ValueType} (held : current.localAt slot = some refined) :
    (∃ type, trimmed.localAt slot = some type ∧ R refined type) ∨
      refined = .top ∧ trimmed.localAt slot = none ∧ trimmed.AboveWide slot

/-- Trimming leaves an upper half above a wide value, if it leaves anything there. -/
theorem Frame.TrimmedTo.upper {live : IndexSet} {computed trimmed : Frame} {slot : Nat}
    (shaped : computed.Shaped maxLocals) (trims : computed.TrimmedTo live trimmed)
    (above : trimmed.AboveWide slot) : computed.localAt slot = some .top ∧
      (trimmed.localAt slot = some .top ∨ trimmed.localAt slot = none) := by
  obtain ⟨below, type, rfl, held, isWide⟩ := above
  have isUpper : computed.localAt (below + 1) = some .top := by
    rcases trims.locals below with isComputed | isEmpty
    · exact shaped.upper (isComputed.symm.trans held) isWide
    · cases isEmpty.symm.trans held
  refine ⟨isUpper, ?_⟩
  rw [← isUpper]
  exact trims.locals (below + 1)

/-- A local with a value can get another value in its place. -/
theorem Frame.RefinesTo.setLocal {live : IndexSet} {tracked : Prop}
    {computed trimmed current : Frame} {slot : Nat} {expected type : ValueType}
    (lenient : Lenient R) (shaped : computed.Shaped maxLocals)
    (trims : computed.TrimmedTo live trimmed)
    (refines : RefinesTo R K tracked computed trimmed current)
    (held : current.localAt slot = some expected) (isUsable : expected ≠ .top)
    (related : R type expected) :
    ∃ changed, current.setLocal slot type = .ok changed ∧
      RefinesTo R K tracked computed trimmed changed := by
  obtain ⟨before, heldBefore, relatedBefore⟩ :
      ∃ before, trimmed.localAt slot = some before ∧
      R expected before := by
    rcases refines.known held with isTrimmed | ⟨isTop, _⟩
    · exact isTrimmed
    · exact absurd isTop isUsable
  -- If the new value is wide, the slot behind has been an upper half all along.
  have aboveWide (isWide : type.width = 2) : trimmed.AboveWide (slot + 1) :=
    ⟨slot, before, rfl, heldBefore,
      lenient.wide relatedBefore (lenient.wide related isWide)⟩
  have inBounds : slot + type.width ≤ current.locals.size := by
    rcases type.width_eq_one_or_two with isNarrow | isWide
    · rw [isNarrow]
      exact lt_size_of_localAt held
    · rw [isWide, refines.size_eq]
      exact lt_size_of_localAt (trims.upper shaped (aboveWide isWide)).1
  obtain ⟨changed, stored⟩ := exists_setLocal inBounds
  refine ⟨changed, stored, ?_⟩
  obtain ⟨_, same, size_eq⟩ := setLocal_eq_ok stored
  -- The slot holds no upper half, so nothing before it is emptied.
  have splits := splitsWide_of_value held isUsable
  have localAt (other : Nat) := localAt_setLocal stored other
  simp only [splits, Bool.false_eq_true, and_false, if_false] at localAt
  refine ⟨size_eq.trans refines.size_eq, ?_, fun {other kept} isKept => ?_,
    fun {other refined} isRefined => ?_⟩
  · rw [same]
    exact refines.cells
  · rw [localAt]
    split
    next isSlot =>
      subst isSlot
      cases heldBefore.symm.trans isKept
      exact ⟨type, rfl, lenient.trans related relatedBefore⟩
    next =>
      split
      next isUpper =>
        obtain ⟨rfl, isWide⟩ := isUpper
        rcases (trims.upper shaped (aboveWide isWide)).2 with isTop | isEmpty
        · cases isKept.symm.trans isTop
          exact ⟨.top, rfl, lenient.of_sameFamily (.refl _)⟩
        · cases isEmpty.symm.trans isKept
      next => exact refines.kept isKept
  · rw [localAt] at isRefined
    split at isRefined
    next isSlot =>
      cases isRefined
      exact .inl ⟨before, isSlot ▸ heldBefore, lenient.trans related relatedBefore⟩
    next =>
      split at isRefined
      next isUpper =>
        obtain ⟨rfl, isWide⟩ := isUpper
        cases isRefined
        rcases (trims.upper shaped (aboveWide isWide)).2 with isTop | isEmpty
        · exact .inl ⟨.top, isTop, lenient.of_sameFamily (.refl _)⟩
        · exact .inr ⟨rfl, isEmpty, aboveWide isWide⟩
      next => exact refines.known isRefined

/-- All frames have been refined, none has been lost. -/
structure Frames.RefinesTo (R K : ValueType → ValueType → Prop) (tracked : Nat → Prop)
    (computed trimmed current : Frames) : Prop where
  size_eq : current.size = computed.size
  none_of_none {position : Nat} (isNone : computed.at? position = none) :
    current.at? position = none
  frame {position : Nat} {old : Frame} (there : computed.at? position = some old) :
    ∃ middle new, trimmed.at? position = some middle ∧ current.at? position = some new ∧
      old.RefinesTo R K (tracked position) middle new

namespace Frames

variable {tracked : Nat → Prop} {computed trimmed current : Frames} {liveness : Liveness}
  {position slot : Nat}

theorem RefinesTo.exists_old {new : Frame}
    (refines : RefinesTo R K tracked computed trimmed current)
    (there : current.at? position = some new) :
    ∃ old middle, computed.at? position = some old ∧ trimmed.at? position = some middle ∧
      old.RefinesTo R K (tracked position) middle new := by
  cases isOld : computed.at? position with
  | none => cases (refines.none_of_none isOld).symm.trans there
  | some old =>
      obtain ⟨middle, _, isMiddle, isNew, frameRefines⟩ := refines.frame isOld
      cases there.symm.trans isNew
      exact ⟨old, middle, rfl, isMiddle, frameRefines⟩

theorem RefinesTo.kept {type : ValueType} (trims : computed.TrimmedTo liveness trimmed)
    (refines : RefinesTo R K tracked computed trimmed current)
    (held : trimmed.localAt position slot = some type) :
    ∃ refined, current.localAt position slot = some refined ∧ R refined type := by
  obtain ⟨middle, isMiddle, held⟩ := localAt_eq_some.mp held
  obtain ⟨old, isOld, _⟩ := trims.exists_original isMiddle
  obtain ⟨_, new, alsoMiddle, isNew, frameRefines⟩ := refines.frame isOld
  cases isMiddle.symm.trans alsoMiddle
  obtain ⟨refined, isRefined, related⟩ := frameRefines.kept held
  exact ⟨refined, localAt_eq_some.mpr ⟨new, isNew, isRefined⟩, related⟩

theorem RefinesTo.known {refined : ValueType}
    (refines : RefinesTo R K tracked computed trimmed current)
    (held : current.localAt position slot = some refined) :
    (∃ type, trimmed.localAt position slot = some type ∧ R refined type) ∨
      refined = .top ∧ ∃ middle, trimmed.at? position = some middle ∧
        middle.AboveWide slot := by
  obtain ⟨new, isNew, held⟩ := localAt_eq_some.mp held
  obtain ⟨old, middle, isOld, isMiddle, frameRefines⟩ := refines.exists_old isNew
  rcases frameRefines.known held with ⟨type, isType, related⟩ | ⟨isTop, _, above⟩
  · exact .inl ⟨type, localAt_eq_some.mpr ⟨middle, isMiddle, isType⟩, related⟩
  · exact .inr ⟨isTop, middle, isMiddle, above⟩

theorem RefinesTo.put {old middle new : Frame}
    (refines : RefinesTo R K tracked computed trimmed current)
    (isOld : computed.at? position = some old)
    (isMiddle : trimmed.at? position = some middle)
    (frameRefines : old.RefinesTo R K (tracked position) middle new) :
    RefinesTo R K tracked computed trimmed (current.put position new) := by
  refine ⟨(size_put ..).trans refines.size_eq, fun {other} isNone => ?_,
    fun {other otherOld} isOther => ?_⟩
  · rw [at?_put, if_neg]
    · exact refines.none_of_none isNone
    · rintro ⟨rfl, _⟩
      cases isNone.symm.trans isOld
  · rw [at?_put]
    split
    next same =>
      obtain ⟨rfl, _⟩ := same
      cases isOld.symm.trans isOther
      exact ⟨middle, new, isMiddle, rfl, frameRefines⟩
    next => exact refines.frame isOther

end Frames

/-- The failure is not that of a frame. -/
def Error.Frameless (error : Error) : Prop :=
  ∀ position fault, error ≠ .frame position fault

theorem Error.frameless_tolerates : Tolerates Frameless :=
  ⟨fun _ _ _ => nofun, fun _ _ => nofun⟩

section Refines

variable {hierarchy : Hierarchy} {tracked : Nat → Prop} {computed trimmed : Frames}
  {liveness : Liveness} {slot : Nat} {expected : ValueType}

/-- A change of a cell leaves the locals alone. -/
@[simp] theorem Refinement.localAt_retypeCell (refinement : Refinement)
    (position distance : Nat) (type : ValueType) (other slot : Nat) :
    (refinement.retypeCell position distance type).frames.localAt other slot =
      refinement.frames.localAt other slot := by
  unfold retypeCell
  split
  next => rfl
  next frame there =>
    by_cases same : other = position
    · rw [same, Frames.localAt_put_self there, Frames.localAt, there, Option.bind_some]
      cases distance <;> rfl
    · exact Frames.localAt_put_of_ne same slot

@[simp] theorem Refinement.changes_retypeCell (refinement : Refinement)
    (position distance : Nat) (type : ValueType) :
    (refinement.retypeCell position distance type).changes = refinement.changes := by
  unfold retypeCell
  split <;> rfl

@[simp] theorem Refinement.refined_retypeCell (refinement : Refinement)
    (position distance : Nat) (type : ValueType) :
    (refinement.retypeCell position distance type).refined = refinement.refined := by
  unfold retypeCell
  split <;> rfl

/-- The changes of a local at a position, the latest one first. -/
def Refinement.changesOf (refinement : Refinement) (position slot : Nat) :
    List Retyping :=
  refinement.changes.filter fun change => change.position = position && change.slot = slot

/-- The changes, of which the latest one comes first, lead from one type to the other. -/
def Retyping.Lead (before : ValueType) : List Retyping → ValueType → Prop
  | [], after => after = before
  | change :: earlier, after => after = change.after ∧ Lead before earlier change.before

/-- Where a trimmed local holds a value, the changes that have been kept lead from its
type to the current one. -/
def Refinement.Records (trimmed : Frames) (refinement : Refinement) : Prop :=
  ∀ position slot before, trimmed.localAt position slot = some before → before ≠ .top →
    ∃ type, refinement.frames.localAt position slot = some type ∧
      Retyping.Lead before (refinement.changesOf position slot) type

/-- The invariant of a refinement. -/
structure Refinement.Refines (R K : ValueType → ValueType → Prop) (tracked : Nat → Prop)
    (computed trimmed : Frames) (refinement : Refinement) : Prop where
  frames : Frames.RefinesTo R K tracked computed trimmed refinement.frames
  records : refinement.Records trimmed

/-- A change of a local is kept, and no other local of the frame changes that holds a
value. -/
theorem Refinement.Records.setLocal {refinement : Refinement} {position : Nat}
    {type : ValueType} {new changed : Frame} (lenient : Lenient R)
    (trims : computed.TrimmedTo liveness trimmed) (records : refinement.Records trimmed)
    (isNew : refinement.frames.at? position = some new)
    (held : new.localAt slot = some expected)
    (stored : new.setLocal slot type = .ok changed)
    (refines : Frames.RefinesTo R K tracked computed trimmed
      (refinement.frames.put position changed)) :
    { refinement with
      frames := refinement.frames.put position changed
      changes := ⟨position, slot, expected, type⟩ ::
          refinement.changes }.Records trimmed := by
  intro other otherSlot before isBefore isValue
  obtain ⟨earlier, isEarlier, leads⟩ := records other otherSlot before isBefore isValue
  obtain ⟨later, isLater, related⟩ := refines.kept trims isBefore
  refine ⟨later, isLater, ?_⟩
  by_cases here : other = position
  · subst here
    rw [Frames.localAt_put_self isNew, Frame.localAt_setLocal stored] at isLater
    rw [Frames.localAt, isNew, Option.bind_some] at isEarlier
    split at isLater
    next isSlot =>
      subst isSlot
      cases isLater
      cases held.symm.trans isEarlier
      simpa [changesOf, Retyping.Lead] using leads
    next notSlot =>
      have same : later = earlier := by
        split at isLater
        next =>
          cases isLater
          exact absurd ((lenient.top_iff related).mp rfl) isValue
        next =>
          split at isLater
          next => cases isLater
          next => exact Option.some.inj (isLater.symm.trans isEarlier)
      simpa [changesOf, Ne.symm notSlot, same] using leads
  · rw [Frames.localAt_put_of_ne here] at isLater
    cases isLater.symm.trans isEarlier
    simpa [changesOf, Ne.symm here] using leads

/-- A local with a value can get any related type, and no frame stands in the way. -/
theorem Refinement.Refines.accepts (lenient : Lenient R)
    (shaped : Query.AllFrames (Frame.Shaped maxLocals) computed)
    (trims : computed.TrimmedTo liveness trimmed) (isUsable : expected ≠ .top) :
    Refine.Accepts hierarchy Error.Frameless
      (Refinement.Refines R K tracked computed trimmed) slot expected (R · expected) where
  same := lenient.of_sameFamily (.refl expected)
  join _ answered := lenient.of_sameFamily (Query.sameFamily_of_join answered).2.symm
  mark _ refines := ⟨refines.frames, refines.records⟩
  retype {refinement position type} refines held related := by
    obtain ⟨new, isNew, held⟩ := Frames.localAt_eq_some.mp held
    obtain ⟨old, middle, isOld, isMiddle, frameRefines⟩ := refines.frames.exists_old isNew
    obtain ⟨_, alsoMiddle, frameTrims⟩ := trims.frame isOld
    cases isMiddle.symm.trans alsoMiddle
    obtain ⟨changed, stored, changedRefines⟩ :=
      frameRefines.setLocal lenient (shaped _ _ isOld) frameTrims held isUsable related
    have putRefines := refines.frames.put isOld isMiddle changedRefines
    unfold Refinement.retype
    rw [isNew]
    dsimp only
    rw [stored]
    exact .pure ⟨putRefines, refines.records.setLocal lenient trims isNew held
      stored putRefines⟩

end Refines

end LocalTable
