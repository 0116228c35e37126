import Mathlib.Data.Set.Insert
import LocalTable.Proofs.Refine.Operands

/-!
# Booleans on trial

A boolean that is given to a store spreads to all that an `int` of the store gets to.
If the store gets its `int` back, the `int` follows the boolean, and widens it wherever
it has been.  What has been tried, and what of it is a boolean still, is kept as two
sets of places.
-/

namespace LocalTable

variable {hierarchy : Hierarchy} {scene : Scene}

/-! ## Integers and booleans -/

namespace Query

theorem eval_isCompatible_boolean (type : ValueType) :
    (isCompatible type .boolean : Query hierarchy _).eval =
      .ok (decide (type = .int ∨ type = .boolean)) := by
  cases type <;> rfl

theorem eval_isCompatible_int (type : ValueType) :
    (isCompatible type .int : Query hierarchy _).eval =
      .ok (decide (type = .int ∨ type = .char ∨ type = .byte ∨ type = .short)) := by
  cases type <;> rfl

/-- A store fits a boolean use if it leaves an `int`, or if it leaves a boolean, and the
local that is loaded is one as well. -/
theorem fitsLoad_boolean_iff {frames : Frames} {slot store : Nat} {type : ValueType}
    (isEither : type = .int ∨ type = .boolean) :
    scene.FitsLoad hierarchy frames slot type .boolean store ↔
      scene.StoresTo slot store ∧ (frames.localAt (store + 1) slot = some .int ∨
        type = .boolean ∧ frames.localAt (store + 1) slot = some .boolean) := by
  unfold Scene.FitsLoad
  simp only [eval_isCompatible_boolean]
  rcases isEither with rfl | rfl
  · simp only [eval_isCompatible_int]
    cases frames.localAt (store + 1) slot with
    | none => simp
    | some stored => cases stored <;> simp
  · simp only [eval_isCompatible_boolean]
    cases frames.localAt (store + 1) slot with
    | none => simp
    | some stored => cases stored <;> simp

section Common

variable {P : ValueType → Prop}
  (joins : ∀ left right, P left → P right →
    ∃ joined, P joined ∧ (join left right : Query hierarchy _).eval = .ok (some joined))

include joins

theorem eval_joinAll_of_joins {common : ValueType} {types : List ValueType}
    (isCommon : P common) (all : ∀ type ∈ types, P type) :
    ∃ joined, P joined ∧
      (commonStored.joinAll common types : Query hierarchy _).eval =
        .ok (some joined) := by
  induction types generalizing common with
  | nil => exact ⟨common, isCommon, rfl⟩
  | cons type rest ih =>
      obtain ⟨isType, allRest⟩ := List.forall_mem_cons.mp all
      obtain ⟨joined, isJoined, answered⟩ := joins common type isCommon isType
      obtain ⟨last, isLast, restAnswered⟩ := ih isJoined allRest
      refine ⟨last, isLast, ?_⟩
      rw [commonStored.joinAll, eval_bind_of_ok answered]
      exact restAnswered

/-- Stores that leave types of a kind which joins stay in have such a type in common. -/
theorem eval_commonStored_of_joins {frames : Frames} {stores : List Nat}
    (notNull : ¬P .null)
    (nonempty : stores ≠ []) (all : ∀ store ∈ stores, ∃ slot type, P type ∧
      scene.storedAt? frames store = some (slot, type)) :
    ∃ common, P common ∧
      (commonStored scene frames stores : Query hierarchy _).eval =
        .ok (some common) := by
  have types {store : Nat} {slot : Nat} {type : ValueType} (isType : P type)
      (held : scene.storedAt? frames store = some (slot, type)) :
      ((scene.storedAt? frames store).map Prod.snd).filter (· != .null) = some type := by
    have differs : type ≠ .null := fun isNull => notNull (isNull ▸ isType)
    simp [held, differs]
  cases stores with
  | nil => exact absurd rfl nonempty
  | cons store rest =>
      obtain ⟨⟨slot, first, isFirst, held⟩, allRest⟩ := List.forall_mem_cons.mp all
      unfold commonStored
      rw [List.filterMap_cons, types isFirst held]
      refine eval_joinAll_of_joins joins isFirst fun type member => ?_
      obtain ⟨other, isOther, found⟩ := List.mem_filterMap.mp member
      obtain ⟨_, stored, isStored, otherHeld⟩ := allRest other isOther
      cases (types isStored otherHeld).symm.trans found
      exact isStored

end Common

/-- Stores that all leave the same type have it in common. -/
theorem eval_commonStored_of_same {frames : Frames} {stores : List Nat} {type : ValueType}
    (differs : type ≠ .null) (nonempty : stores ≠ []) (all : ∀ store ∈ stores, ∃ slot,
      scene.storedAt? frames store = some (slot, type)) :
    (commonStored scene frames stores : Query hierarchy _).eval = .ok (some type) := by
  have joins (left right : ValueType) (isLeft : left = type) (isRight : right = type) :
      ∃ joined, joined = type ∧
          (join left right : Query hierarchy _).eval = .ok (some joined) :=
    ⟨type, rfl, by simp [isLeft, isRight, join]⟩
  obtain ⟨common, rfl, answered⟩ := eval_commonStored_of_joins joins differs.symm nonempty
    fun store member => (all store member).imp fun slot held => ⟨type, rfl, held⟩
  exact answered

/-- If stores leave `int` and booleans only, a boolean is what they are tried with. -/
theorem exists_commonStored {frames : Frames} {stores : List Nat} (nonempty : stores ≠ [])
    (all : ∀ store ∈ stores, ∃ slot type, (type = .int ∨ type = .boolean) ∧
      scene.storedAt? frames store = some (slot, type)) :
    ∃ common,
      (commonStored scene frames stores : Query hierarchy _).eval = .ok (some common) ∧
        (if shouldRetype common .boolean then .boolean else common) =
          ValueType.boolean := by
  have joins (left right : ValueType) (isLeft : left = .int ∨ left = .boolean)
      (isRight : right = .int ∨ right = .boolean) : ∃ joined,
      (joined = .int ∨ joined = .boolean) ∧
        (join left right : Query hierarchy _).eval = .ok (some joined) := by
    rcases isLeft with rfl | rfl <;> rcases isRight with
      rfl | rfl <;> exact ⟨_, by decide, rfl⟩
  obtain ⟨common, isCommon, answered⟩ :=
    eval_commonStored_of_joins joins (by simp) nonempty all
  refine ⟨common, answered, ?_⟩
  rcases isCommon with rfl | rfl <;> rfl

end Query

/-! ## Places that are tried -/

/-- From the start on, which holds an `int` in the slot, control gets to the position
without meeting anything else there. -/
def Scene.KeepsInt (scene : Scene) (frames : Frames) (slot start position : Nat) : Prop :=
  frames.localAt start slot = some .int ∧
    Relation.ReflTransGen (fun before after => after ∈ scene.flow.successors before ∧
      frames.localAt after slot = some .int) start position

theorem Scene.KeepsInt.isInt {frames : Frames} {slot start position : Nat}
    (keeps : scene.KeepsInt frames slot start position) :
    frames.localAt position slot = some .int := by
  rcases keeps.2.cases_tail with rfl | ⟨_, _, _, isInt⟩
  · exact keeps.1
  · exact isInt

theorem Scene.KeepsInt.onward {frames : Frames} {slot start position next : Nat}
    (keeps : scene.KeepsInt frames slot start position)
    (leads : next ∈ scene.flow.successors position)
    (isInt : frames.localAt next slot = some .int) :
    scene.KeepsInt frames slot start next :=
  ⟨keeps.1, keeps.2.tail ⟨leads, isInt⟩⟩

namespace Refinement

/-- The frames are the same, and only booleans have come to count as refined. -/
structure OnlyMarks (before after : Refinement) : Prop where
  frames_eq : after.frames = before.frames
  size_eq : after.refined.size = before.refined.size
  grows {position slot : Nat} (isRefined : before.isRefined position slot = true) :
    after.isRefined position slot = true
  isBoolean {position slot : Nat} (isRefined : after.isRefined position slot = true) :
    before.isRefined position slot = true ∨
      before.frames.localAt position slot = some .boolean

/-- Some locals that were `int` have been tried as booleans, and some of these are
booleans still. Those that have been tried count as refined. -/
structure Tried (before : Refinement) (tried kept : Set (Nat × Nat))
    (after : Refinement) :
    Prop where
  outline_eq : after.frames.outline = before.frames.outline
  size_eq : after.refined.size = before.refined.size
  kept_subset : kept ⊆ tried
  isInt {position slot : Nat} (isTried : (position, slot) ∈ tried) :
    before.frames.localAt position slot = some .int
  isOpen {position slot : Nat} (isTried : (position, slot) ∈ tried) :
    before.isRefined position slot = false
  isBoolean {position slot : Nat} (isKept : (position, slot) ∈ kept) :
    after.frames.localAt position slot = some .boolean
  same {position slot : Nat} (notKept : (position, slot) ∉ kept) :
    after.frames.localAt position slot = before.frames.localAt position slot
  refined {position slot : Nat}
    (notBoolean : before.frames.localAt position slot ≠ some .boolean) :
    after.isRefined position slot = true ↔
      before.isRefined position slot = true ∨ (position, slot) ∈ tried

variable {before after changed : Refinement} {tried kept : Set (Nat × Nat)}
  {position slot : Nat}

namespace OnlyMarks

theorem of_eq (frames_eq : after.frames = before.frames)
    (refined_eq : after.refined = before.refined) : before.OnlyMarks after := by
  refine ⟨frames_eq, by rw [refined_eq], fun isRefined => ?_, fun isRefined => .inl ?_⟩
  · rw [Refinement.isRefined, refined_eq]
    exact isRefined
  · rw [Refinement.isRefined, refined_eq] at isRefined
    exact isRefined

theorem refl (before : Refinement) : before.OnlyMarks before :=
  of_eq rfl rfl

theorem trans (first : before.OnlyMarks after) (second : after.OnlyMarks changed) :
    before.OnlyMarks changed := by
  refine ⟨second.frames_eq.trans first.frames_eq, second.size_eq.trans first.size_eq,
    fun isRefined => second.grows (first.grows isRefined), fun isRefined => ?_⟩
  rcases second.isBoolean isRefined with isRefined | held
  · exact first.isBoolean isRefined
  · exact .inr (first.frames_eq ▸ held)

/-- A cell gets the type that it has. -/
theorem retypeCell {distance : Nat} {cell : Cell} {type : ValueType}
    (marks : before.OnlyMarks after)
    (isCell : before.frames.cellAt position distance = some cell)
    (isType : cell.type = some type) :
    before.OnlyMarks (after.retypeCell position distance type) := by
  rw [← marks.frames_eq] at isCell
  exact marks.trans (of_eq (frames_retypeCell_self isCell isType) (refined_retypeCell ..))

/-- A boolean is refined, and stays one. -/
theorem refines (held : before.frames.localAt position slot = some .boolean)
    (retyped : (before.markRefined position slot).retype position slot .boolean .boolean =
      .ok changed) : before.OnlyMarks changed := by
  have frames_eq : changed.frames = (before.markRefined position slot).frames :=
    frames_retype_self retyped held (by decide) rfl rfl
  have isRefined_eq (other otherSlot : Nat) :=
    isRefined_retype retyped held other otherSlot
  simp only [isRefined_markRefined] at isRefined_eq
  refine ⟨frames_eq, ?_, fun isRefined => ?_, fun isRefined => ?_⟩
  · rw [refined_retype retyped held, size_refined_markRefined]
  · simp [isRefined_eq, isRefined]
  · rw [isRefined_eq, Bool.or_eq_true] at isRefined
    refine isRefined.imp_right fun here => ?_
    simp only [Bool.and_eq_true, decide_eq_true_eq] at here
    rw [here.1.1, here.1.2, held]

end OnlyMarks

theorem Tried.refl (before : Refinement) : before.Tried ∅ ∅ before :=
  ⟨rfl, rfl, Set.Subset.rfl, by simp, by simp, by simp, fun _ => rfl, by simp⟩

namespace Tried

variable (isTried : before.Tried tried kept after)

include isTried

theorem localAt_eq_int (held : after.frames.localAt position slot = some .int) :
    (position, slot) ∉ kept ∧ before.frames.localAt position slot = some .int := by
  have notKept : (position, slot) ∉ kept := fun isKept => by
    cases held.symm.trans (isTried.isBoolean isKept)
  exact ⟨notKept, isTried.same notKept ▸ held⟩

theorem localAt_eq_boolean (held : after.frames.localAt position slot = some .boolean) :
    before.frames.localAt position slot = some .int ∨
      before.frames.localAt position slot = some .boolean := by
  by_cases isKept : (position, slot) ∈ kept
  · exact .inl (isTried.isInt (isTried.kept_subset isKept))
  · exact .inr ((isTried.same isKept).symm.trans held)

theorem marks (marks : after.OnlyMarks changed) : before.Tried tried kept changed := by
  refine ⟨marks.frames_eq ▸ isTried.outline_eq, marks.size_eq.trans isTried.size_eq,
    isTried.kept_subset, isTried.isInt, isTried.isOpen,
    fun isKept => marks.frames_eq ▸ isTried.isBoolean isKept,
    fun notKept => marks.frames_eq ▸ isTried.same notKept,
      fun {position slot} notBoolean => ?_⟩
  constructor
  · intro isRefined
    rcases marks.isBoolean isRefined with isRefined | held
    · exact (isTried.refined notBoolean).mp isRefined
    · by_cases isKept : (position, slot) ∈ kept
      · exact .inr (isTried.kept_subset isKept)
      · exact absurd ((isTried.same isKept).symm.trans held) notBoolean
  · exact fun isRefined => marks.grows ((isTried.refined notBoolean).mpr isRefined)

theorem isRefined (wasTried : (position, slot) ∈ tried) :
    after.isRefined position slot = true := by
  refine (isTried.refined ?_).mpr (.inr wasTried)
  rw [isTried.isInt wasTried]
  simp

theorem retypeCell (other distance : Nat) (type : ValueType) :
    before.Tried tried kept (after.retypeCell other distance type) := by
  refine ⟨(outline_retypeCell ..).trans isTried.outline_eq, ?_, isTried.kept_subset,
    isTried.isInt, isTried.isOpen, fun isKept => ?_, fun notKept =>
      ?_, fun notBoolean => ?_⟩
  · rw [refined_retypeCell, isTried.size_eq]
  · rw [localAt_retypeCell, isTried.isBoolean isKept]
  · rw [localAt_retypeCell, isTried.same notKept]
  · rw [Refinement.isRefined, refined_retypeCell]
    exact isTried.refined notBoolean

theorem exists_localAt (wasInt : before.frames.localAt position slot = some .int) :
    ∃ type, (type = .int ∨ type = .boolean) ∧
      after.frames.localAt position slot = some type := by
  by_cases isKept : (position, slot) ∈ kept
  · exact ⟨.boolean, .inr rfl, isTried.isBoolean isKept⟩
  · exact ⟨.int, .inl rfl, (isTried.same isKept).trans wasInt⟩

theorem inRange (inRange : ∀ position slot type,
      before.frames.localAt position slot = some type →
      slot < before.refined.size) (position slot : Nat) (type : ValueType)
    (held : after.frames.localAt position slot = some type) :
    slot < after.refined.size := by
  rw [isTried.size_eq]
  by_cases isKept : (position, slot) ∈ kept
  · exact inRange position slot .int (isTried.isInt (isTried.kept_subset isKept))
  · exact inRange position slot type ((isTried.same isKept).symm.trans held)

theorem stays (wasBoolean : before.frames.localAt position slot = some .boolean) :
    after.frames.localAt position slot = some .boolean := by
  refine (isTried.same fun isKept => ?_).trans wasBoolean
  cases wasBoolean.symm.trans (isTried.isInt (isTried.kept_subset isKept))

/-- One more local has been made a boolean. -/
theorem extend (inRange : slot < before.refined.size)
    (held : after.frames.localAt position slot = some .int)
    (isOpen : after.isRefined position slot = false)
    (retyped : (after.markRefined position slot).retype position slot .int .boolean =
      .ok changed) :
    before.Tried (insert (position, slot) tried)
    (insert (position, slot) kept) changed := by
  have localAt := localAt_retype_of_narrow retyped held (by decide) rfl
  obtain ⟨_, wasInt⟩ := isTried.localAt_eq_int held
  refine ⟨(outline_retype retyped held).trans isTried.outline_eq, ?_,
    Set.insert_subset_insert isTried.kept_subset, fun {other otherSlot} member => ?_,
    fun {other otherSlot} member => ?_, fun {other otherSlot} member => ?_,
    fun {other otherSlot} notMember => ?_, fun {other otherSlot} notBoolean => ?_⟩
  · rw [refined_retype retyped held, size_refined_markRefined, isTried.size_eq]
  · rcases Set.mem_insert_iff.mp member with here | member
    · cases here
      exact wasInt
    · exact isTried.isInt member
  · rcases Set.mem_insert_iff.mp member with here | member
    · cases here
      rw [Bool.eq_false_iff] at isOpen ⊢
      refine fun wasRefined => isOpen ((isTried.refined ?_).mpr (.inl wasRefined))
      rw [wasInt]
      simp
    · exact isTried.isOpen member
  · rw [localAt]
    split
    next => rfl
    next elsewhere =>
      refine isTried.isBoolean (member.resolve_left fun here => elsewhere ?_)
      simpa using here
  · rw [Set.mem_insert_iff, not_or] at notMember
    rw [localAt, if_neg (by simpa using notMember.1)]
    exact isTried.same notMember.2
  · rw [isRefined_retype retyped held, isRefined_markRefined, Bool.or_eq_true,
      isTried.refined notBoolean]
    simp [isTried.size_eq, inRange, or_assoc, or_comm]

/-- A boolean has been made an `int` again. -/
theorem takeBack (isKept : (position, slot) ∈ kept)
    (retyped : after.retype position slot .boolean .int = .ok changed) :
    before.Tried tried (kept \ {(position, slot)}) changed := by
  have localAt := localAt_retype_of_narrow retyped (isTried.isBoolean isKept)
    (by decide) rfl
  have held := isTried.isBoolean isKept
  refine ⟨(outline_retype retyped held).trans isTried.outline_eq, ?_,
    fun _ member => isTried.kept_subset member.1, isTried.isInt, isTried.isOpen,
    fun {other otherSlot} member => ?_, fun {other otherSlot} notMember => ?_,
    fun {other otherSlot} notBoolean => ?_⟩
  · rw [refined_retype retyped held, isTried.size_eq]
  · rw [localAt, if_neg (by simpa using member.2)]
    exact isTried.isBoolean member.1
  · rw [localAt]
    split
    next here =>
      rw [here.1, here.2]
      exact (isTried.isInt (isTried.kept_subset isKept)).symm
    next elsewhere =>
      refine isTried.same fun member => notMember ⟨member, ?_⟩
      simpa using elsewhere
  · rw [isRefined_retype retyped held]
    exact isTried.refined notBoolean

end Tried

end Refinement

/-! ## Trying and taking back -/

/-- What control gets to from the places, and is an `int`, is among them. -/
def Scene.ClosedOver (scene : Scene) (frames : Frames)
    (places : Set (Nat × Nat)) : Prop :=
  ∀ position slot next, (position, slot) ∈ places →
    next ∈ scene.flow.successors position →
    frames.localAt next slot = some .int → (next, slot) ∈ places

namespace Query

variable {before : Refinement} {base tried kept : Set (Nat × Nat)} {slot start : Nat}

theorem mem_onward {flow : Flow} {position next : Nat} {type sent : ValueType}
    {rest : List (Nat × ValueType)} :
    (next, sent) ∈ ((flow.successors position).map (·, type)).reverse ++ rest ↔
      next ∈ flow.successors position ∧ sent = type ∨ (next, sent) ∈ rest := by
  simp [eq_comm]

/-- The place has been tried, or a boolean is on its way there. -/
def Awaited (tried : Set (Nat × Nat)) (slot : Nat) (pending : List (Nat × ValueType))
    (position other : Nat) : Prop :=
  (position, other) ∈ tried ∨ other = slot ∧ (position, .boolean) ∈ pending

/-- A boolean spreads from the start.  Places that have been tried are closed under
control, but for those that are pending. -/
structure Trying (scene : Scene) (before : Refinement) (base : Set (Nat × Nat))
    (slot start : Nat) (tried : Set (Nat × Nat)) (spreading : Spreading) : Prop where
  isTried : before.Tried tried tried spreading.refinement
  grows : base ⊆ tried
  within {position other : Nat} (member : (position, other) ∈ tried) :
    (position, other) ∈ base ∨ other = slot ∧
      scene.KeepsInt before.frames slot start position
  pending {position : Nat} {type : ValueType}
    (isPending : (position, type) ∈ spreading.pending) :
    type = .boolean ∧ (before.frames.localAt position slot = some .int →
      scene.KeepsInt before.frames slot start position)
  closed {position other next : Nat} (member : (position, other) ∈ tried)
    (leads : next ∈ scene.flow.successors position)
    (isInt : before.frames.localAt next other = some .int) :
    Awaited tried slot spreading.pending next other
  started : Awaited tried slot spreading.pending start slot

/-- Where nothing has been refined that an `int` gets to from the start, each step tries
one more place. -/
theorem Trying.step {spreading next : Spreading} (inRange : slot < before.refined.size)
    (isInt : before.frames.localAt start slot = some .int)
    (isOpen : ∀ position, scene.KeepsInt before.frames slot start position →
      before.isRefined position slot = false)
    (trying : Trying scene before base slot start tried spreading)
    (spreads : Spreads hierarchy scene.flow slot .int spreading next) :
    ∃ tried, Trying scene before base slot start tried next := by
  cases spreads with
  | @passes refinement position type rest idle =>
      obtain ⟨rfl, _⟩ := trying.pending (List.mem_cons_self ..)
      have notInt := idle.resolve_right (by simp)
      -- What is passed over has been tried, or was no `int` before.
      have awaited {place other : Nat}
          (wasInt : before.frames.localAt place other = some .int)
          (isAwaited : Awaited tried slot ((position, .boolean) :: rest) place other) :
          Awaited tried slot rest place other := by
        rcases isAwaited with isTried | ⟨rfl, isPending⟩
        · exact .inl isTried
        rcases List.mem_cons.mp isPending with here | isLater
        · cases here
          left
          by_contra notTried
          exact notInt ((trying.isTried.same notTried).trans wasInt)
        · exact .inr ⟨rfl, isLater⟩
      exact ⟨tried, trying.isTried, trying.grows, trying.within,
        fun member => trying.pending (List.mem_cons_of_mem _ member),
        fun member leads wasInt => awaited wasInt (trying.closed member leads wasInt),
        awaited isInt trying.started⟩
  | @refines refinement changed position type rest held isOpen retyped =>
      obtain ⟨rfl, keeps⟩ := trying.pending (List.mem_cons_self ..)
      have keeps := keeps (trying.isTried.localAt_eq_int held).2
      have awaited {place other : Nat}
          (isAwaited : Awaited tried slot ((position, .boolean) :: rest) place other) :
          Awaited (insert (position, slot) tried) slot
            (((scene.flow.successors position).map (·, .boolean)).reverse ++ rest)
                place other := by
        rcases isAwaited with isTried | ⟨rfl, isPending⟩
        · exact .inl (Set.mem_insert_of_mem _ isTried)
        rcases List.mem_cons.mp isPending with here | isLater
        · cases here
          exact .inl (Set.mem_insert ..)
        · exact .inr ⟨rfl, mem_onward.mpr (.inr isLater)⟩
      refine ⟨insert (position, slot) tried,
        trying.isTried.extend inRange held isOpen retyped,
          trying.grows.trans (Set.subset_insert ..), fun member =>
            ?_, fun isPending => ?_,
        fun member leads wasInt => ?_, awaited trying.started⟩
      · rcases Set.mem_insert_iff.mp member with here | member
        · cases here
          exact .inr ⟨rfl, keeps⟩
        · exact trying.within member
      · rcases mem_onward.mp isPending with ⟨leads, rfl⟩ | isLater
        · exact ⟨rfl, keeps.onward leads⟩
        · exact trying.pending (List.mem_cons_of_mem _ isLater)
      · rcases Set.mem_insert_iff.mp member with here | member
        · cases here
          exact .inr ⟨rfl, mem_onward.mpr (.inl ⟨leads, rfl⟩)⟩
        · exact awaited (trying.closed member leads wasInt)
  | @widens refinement changed position type joined rest held isRefined _ joins retyped =>
      obtain ⟨rfl, keeps⟩ := trying.pending (List.mem_cons_self ..)
      obtain ⟨notTried, wasInt⟩ := trying.isTried.localAt_eq_int held
      rcases (trying.isTried.refined (by simp [wasInt])).mp isRefined with
        wasRefined | isTried
      · rw [isOpen position (keeps wasInt)] at wasRefined
        cases wasRefined
      · exact absurd isTried notTried

/-- An `int` spreads from the start, over booleans that have been tried.  Where it has
been, it does not leave booleans behind, but for those that are pending. -/
structure TakingBack (scene : Scene) (before : Refinement) (tried base : Set (Nat × Nat))
    (slot start : Nat) (kept : Set (Nat × Nat)) (spreading : Spreading) : Prop where
  isTried : before.Tried tried kept spreading.refinement
  shrinks : kept ⊆ base
  pending {position : Nat} {type : ValueType}
    (isPending : (position, type) ∈ spreading.pending) :
    type = .int ∧ before.frames.localAt position slot ≠ some .boolean
  closed {position other next : Nat} (member : (position, other) ∈ tried)
    (isBack : (position, other) ∉ kept) (leads : next ∈ scene.flow.successors position)
    (isKept : (next, other) ∈ kept) : other = slot ∧ (next, .int) ∈ spreading.pending
  started (isKept : (start, slot) ∈ kept) : (start, .int) ∈ spreading.pending

theorem TakingBack.isKept_of_pending {spreading : Spreading} {position : Nat}
    {type : ValueType}
    (taking : TakingBack scene before tried base slot start kept spreading)
    (isPending : (position, type) ∈ spreading.pending)
    (held : spreading.refinement.frames.localAt position slot = some .boolean) :
    (position, slot) ∈ kept := by
  by_contra notKept
  exact (taking.pending isPending).2 ((taking.isTried.same notKept).symm.trans held)

/-- Where no other boolean is next to those that have been tried, each step takes one of
them back. -/
theorem TakingBack.step {spreading next : Spreading}
    (apart : ∀ position other next, (position, other) ∈ tried →
      next ∈ scene.flow.successors position →
      before.frames.localAt next other ≠ some .boolean)
    (taking : TakingBack scene before tried base slot start kept spreading)
    (spreads : Spreads hierarchy scene.flow slot .boolean spreading next) :
    ∃ kept, TakingBack scene before tried base slot start kept next := by
  cases spreads with
  | @passes refinement position type rest idle =>
      obtain ⟨rfl, _⟩ := taking.pending (List.mem_cons_self ..)
      have notKept : (position, slot) ∉ kept := fun isKept =>
        idle.resolve_right (by simp) (taking.isTried.isBoolean isKept)
      have later {place : Nat} (isKept : (place, slot) ∈ kept)
          (isPending : (place, .int) ∈ (position, .int) :: rest) :
          (place, .int) ∈ rest := by
        rcases List.mem_cons.mp isPending with here | isLater
        · cases here
          exact absurd isKept notKept
        · exact isLater
      refine ⟨kept, taking.isTried, taking.shrinks,
        fun member => taking.pending (List.mem_cons_of_mem _ member),
        fun member isBack leads isKept => ?_, fun isKept =>
          later isKept (taking.started isKept)⟩
      obtain ⟨rfl, isPending⟩ := taking.closed member isBack leads isKept
      exact ⟨rfl, later isKept isPending⟩
  | @refines refinement changed position type rest held isOpen retyped =>
      have isKept := taking.isKept_of_pending (List.mem_cons_self ..) held
      have isRefined := taking.isTried.isRefined (taking.isTried.kept_subset isKept)
      rw [isOpen] at isRefined
      cases isRefined
  | @widens refinement changed position type joined rest held _ _ joins retyped =>
      have isKept := taking.isKept_of_pending (List.mem_cons_self ..) held
      obtain ⟨rfl, _⟩ := taking.pending (List.mem_cons_self ..)
      cases joins
      have later {place : Nat} (remains : (place, slot) ∈ kept \ {(position, slot)})
          (isPending : (place, .int) ∈ (position, .int) :: rest) :
          (place, .int) ∈ ((scene.flow.successors position).map (·, .int)).reverse ++
              rest := by
        rcases List.mem_cons.mp isPending with here | isLater
        · cases here
          exact absurd rfl remains.2
        · exact mem_onward.mpr (.inr isLater)
      refine ⟨kept \ {(position, slot)}, taking.isTried.takeBack isKept retyped,
        fun _ member => taking.shrinks member.1, fun isPending => ?_,
        fun {source other next} member isBack leads remains => ?_,
        fun remains => later remains (taking.started remains.1)⟩
      · rcases mem_onward.mp isPending with ⟨leads, rfl⟩ | isLater
        · exact ⟨rfl, apart position slot _ (taking.isTried.kept_subset isKept) leads⟩
        · exact taking.pending (List.mem_cons_of_mem _ isLater)
      · by_cases here : (source, other) = (position, slot)
        · cases here
          exact ⟨rfl, mem_onward.mpr (.inl ⟨leads, rfl⟩)⟩
        · obtain ⟨rfl, isPending⟩ :=
            taking.closed member (fun isKept => isBack ⟨isKept, here⟩) leads remains.1
          exact ⟨rfl, later remains isPending⟩

end Query

/-- What has been taken back leaves no boolean behind. -/
def Scene.ClosedBack (scene : Scene) (tried kept : Set (Nat × Nat)) : Prop :=
  ∀ position slot next, (position, slot) ∈ tried → (position, slot) ∉ kept →
    next ∈ scene.flow.successors position → (next, slot) ∉ kept

/-- All that an `int` of the store gets to is as yet unrefined, with no boolean next to
it; and no store of the slot leaves a boolean. -/
structure Refinement.Fresh (scene : Scene) (before : Refinement)
    (slot store : Nat) : Prop where
  isInt : before.frames.localAt (store + 1) slot = some .int
  isOpen {position : Nat} (keeps : scene.KeepsInt before.frames slot
    (store + 1) position) :
    before.isRefined position slot = false
  apart {position next : Nat}
    (keeps : scene.KeepsInt before.frames slot (store + 1) position)
    (leads : next ∈ scene.flow.successors position) :
    before.frames.localAt next slot ≠ some .boolean
  alone {other : Nat} (stores : scene.StoresTo slot other) :
    before.frames.localAt (other + 1) slot ≠ some .boolean

/-- All that an `int` of the store gets to has been refined. -/
structure Refinement.Settled (scene : Scene) (before : Refinement)
    (slot store : Nat) : Prop where
  isInt : before.frames.localAt (store + 1) slot = some .int
  isRefined {position : Nat}
    (keeps : scene.KeepsInt before.frames slot (store + 1) position) :
    before.isRefined position slot = true

theorem Refinement.Settled.congr {before after : Refinement} {slot store : Nat}
    (settled : before.Settled scene slot store) (frames_eq : after.frames = before.frames)
    (refined_eq : after.refined = before.refined) : after.Settled scene slot store := by
  refine ⟨frames_eq ▸ settled.isInt, fun keeps => ?_⟩
  rw [frames_eq] at keeps
  rw [Refinement.isRefined, refined_eq]
  exact settled.isRefined keeps

/-- What has been tried had not been refined, so it has nothing to do with a settled
store. -/
theorem Refinement.Tried.settled {before after : Refinement}
    {tried kept : Set (Nat × Nat)} {slot store : Nat}
    (isTried : before.Tried tried kept after)
    (settled : before.Settled scene slot store) : after.Settled scene slot store := by
  have keepsBefore {position : Nat}
      (keeps : scene.KeepsInt after.frames slot (store + 1) position) :
      scene.KeepsInt before.frames slot (store + 1) position := by
    refine ⟨settled.isInt, Relation.ReflTransGen.mono (fun _ _ step => ?_) _ _ keeps.2⟩
    exact ⟨step.1, (isTried.localAt_eq_int step.2).2⟩
  have notKept : (store + 1, slot) ∉ kept := by
    intro isKept
    have isOpen := isTried.isOpen (isTried.kept_subset isKept)
    rw [settled.isRefined ⟨settled.isInt, .refl⟩] at isOpen
    cases isOpen
  refine ⟨(isTried.same notKept).trans settled.isInt, fun keeps => ?_⟩
  have keeps := keepsBefore keeps
  exact (isTried.refined (by simp [keeps.isInt])).mpr (.inl (settled.isRefined keeps))

/-- A boolean has been given to a settled store. -/
structure Query.Resisting (scene : Scene) (state : Refinement) (slot store : Nat)
    (spreading : Spreading) : Prop where
  frames_eq : spreading.refinement.frames = state.frames
  refined_eq : spreading.refinement.refined = state.refined
  pending {position : Nat} {type : ValueType}
    (isPending : (position, type) ∈ spreading.pending) :
    (type = .int ∨ position = store + 1 ∧ type = .boolean) ∧
      (state.frames.localAt position slot = some .int →
        scene.KeepsInt state.frames slot (store + 1) position)

theorem Query.Resisting.step {state : Refinement} {slot store : Nat}
    {spreading next : Spreading} (settled : state.Settled scene slot store)
    (resisting : Resisting scene state slot store spreading)
    (spreads : Spreads hierarchy scene.flow slot .int spreading next) :
    Resisting scene state slot store next := by
  cases spreads with
  | passes =>
      exact ⟨resisting.frames_eq, resisting.refined_eq,
        fun member => resisting.pending (List.mem_cons_of_mem _ member)⟩
  | @refines refinement changed position type rest held isOpen retyped =>
      obtain ⟨frames_eq, refined_eq, pending⟩ := resisting
      dsimp only at frames_eq refined_eq
      rw [frames_eq] at held
      have isRefined := settled.isRefined ((pending (List.mem_cons_self ..)).2 held)
      rw [Refinement.isRefined, refined_eq] at isOpen
      cases isOpen.symm.trans isRefined
  | @widens refinement changed position type joined rest held _ differs joins retyped =>
      obtain ⟨frames_eq, refined_eq, pending⟩ := resisting
      dsimp only at frames_eq refined_eq
      obtain ⟨isInt | ⟨rfl, rfl⟩, keeps⟩ := pending (List.mem_cons_self ..)
      · exact absurd isInt differs
      · cases joins
        have unchanged := Refinement.frames_retype_self retyped held (by decide) rfl rfl
        refine ⟨unchanged.trans frames_eq,
          (Refinement.refined_retype retyped held).trans refined_eq, fun isPending => ?_⟩
        rcases mem_onward.mp isPending with ⟨leads, rfl⟩ | isLater
        · exact ⟨.inl rfl, (keeps (frames_eq ▸ held)).onward leads⟩
        · exact pending (List.mem_cons_of_mem _ isLater)

namespace Refine

variable {before state after : Refinement} {base tried : Set (Nat × Nat)}
  {slot start : Nat} {stored : ValueType}

/-- A boolean that is given to a fresh store spreads to all that an `int` of the store
gets to. -/
theorem retypeFrom_tries (inRange : slot < before.refined.size) {store : Nat}
    (fresh : before.Fresh scene slot store) (isTried : before.Tried base base state)
    (closed : scene.ClosedOver before.frames base)
    (held : state.frames.localAt (store + 1) slot = some stored)
    (ran : ((retypeFrom scene (store + 1) slot stored .boolean : Refine hierarchy _).run
      state).eval = .ok ((), after)) :
    ∃ tried, before.Tried tried tried after ∧ base ⊆ tried ∧
      scene.ClosedOver before.frames tried ∧ (store + 1, slot) ∈ tried ∧
      ∀ position other, (position, other) ∈ tried → (position, other) ∈ base ∨
        other = slot ∧ scene.KeepsInt before.frames slot (store + 1) position := by
  by_cases isThere : (store + 1, slot) ∈ base
  · cases held.symm.trans (isTried.isBoolean isThere)
    cases retypeFrom_of_isRefined (isTried.isRefined isThere) ran
    exact ⟨base, isTried, Set.Subset.rfl, closed, isThere, fun _ _ => .inl⟩
  · rw [isTried.same isThere, fresh.isInt] at held
    cases held
    have starts : Query.Trying scene before base slot (store + 1) base
        ⟨state, [(store + 1, .boolean)]⟩ := by
      refine ⟨isTried, Set.Subset.rfl, .inl, fun member => ?_, fun member leads isInt =>
        .inl (closed _ _ _ member leads isInt), .inr ⟨rfl, List.mem_singleton_self _⟩⟩
      cases List.mem_singleton.mp member
      exact ⟨rfl, fun isInt => ⟨isInt, .refl⟩⟩
    obtain ⟨tried, trying⟩ : ∃ tried,
        Query.Trying scene before base slot (store + 1) tried ⟨after, []⟩ := by
      refine retypeFrom_induction
        (P := fun spreading => ∃ tried,
          Query.Trying scene before base slot (store + 1) tried
          spreading) (isTried.size_eq ▸ inRange) ⟨base, starts⟩ ?_ ran
      rintro _ _ spreads ⟨_, trying⟩
      exact trying.step inRange fresh.isInt (fun _ => fresh.isOpen) spreads
    exact ⟨tried, trying.isTried, trying.grows,
      fun position other next member leads isInt =>
        (trying.closed member leads isInt).resolve_right (by simp),
      trying.started.resolve_right (by simp), fun _ _ => trying.within⟩

/-- An `int` that is given back to a store spreads to all that the boolean has spread
to. -/
theorem retypeFrom_takesBack (inRange : slot < before.refined.size)
    (apart : ∀ position other next, (position, other) ∈ tried →
      next ∈ scene.flow.successors position →
      before.frames.localAt next other ≠ some .boolean)
    (isTried : before.Tried tried base state) (closed : scene.ClosedBack tried base)
    (isThere : (start, slot) ∈ tried)
    (held : state.frames.localAt start slot = some stored)
    (ran :
      ((retypeFrom scene start slot stored .int : Refine hierarchy _).run state).eval =
      .ok ((), after)) :
    ∃ kept, before.Tried tried kept after ∧ kept ⊆ base ∧ scene.ClosedBack tried kept ∧
      (start, slot) ∉ kept := by
  by_cases isKept : (start, slot) ∈ base
  · cases held.symm.trans (isTried.isBoolean isKept)
    have starts : Query.TakingBack scene before tried base slot start base
        ⟨state, [(start, .int)]⟩ := by
      refine ⟨isTried, Set.Subset.rfl, fun member => ?_,
          fun member isBack leads remains =>
        absurd remains (closed _ _ _ member isBack leads), fun _ =>
          List.mem_singleton_self _⟩
      cases List.mem_singleton.mp member
      rw [isTried.isInt isThere]
      exact ⟨rfl, by simp⟩
    obtain ⟨kept, taking⟩ : ∃ kept,
        Query.TakingBack scene before tried base slot start kept ⟨after, []⟩ := by
      refine retypeFrom_induction
        (P := fun spreading => ∃ kept,
          Query.TakingBack scene before tried base slot start kept
          spreading) (isTried.size_eq ▸ inRange) ⟨base, starts⟩ ?_ ran
      rintro _ _ spreads ⟨_, taking⟩
      exact taking.step apart spreads
    refine ⟨kept, taking.isTried, taking.shrinks,
      fun position other next member isBack leads remains => ?_, fun remains => ?_⟩
    · simpa using taking.closed member isBack leads remains
    · simpa using taking.started remains
  · rw [isTried.same isKept, isTried.isInt isThere] at held
    cases held
    cases retypeFrom_of_isRefined (isTried.isRefined isThere) ran
    exact ⟨base, isTried, Set.Subset.rfl, closed, isKept⟩

/-- A boolean that is given to a settled store is joined with the `int` there, and that
is all. -/
theorem retypeFrom_of_settled {store : Nat} (inRange : slot < state.refined.size)
    (settled : state.Settled scene slot store)
    (ran : ((retypeFrom scene (store + 1) slot .int .boolean : Refine hierarchy _).run
      state).eval = .ok ((), after)) :
    after.frames = state.frames ∧ after.refined = state.refined := by
  have resists : Query.Resisting scene state slot store ⟨after, []⟩ := by
    refine retypeFrom_induction (P := Query.Resisting scene state slot store) inRange
      ⟨rfl, rfl, fun member => ?_⟩
        (fun _ _ spreads resisting => resisting.step settled spreads) ran
    cases List.mem_singleton.mp member
    exact ⟨.inr ⟨rfl, rfl⟩, fun isInt => ⟨isInt, .refl⟩⟩
  exact ⟨resists.frames_eq, resists.refined_eq⟩

theorem retypeAll_of_settled {stores : List Nat}
    (inRange : ∀ position slot type, state.frames.localAt position slot = some type →
      slot < state.refined.size)
    (settled : ∀ store ∈ stores, ∃ slot, scene.StoresTo slot store ∧
      state.Settled scene slot store)
    (ran : ((retypeAll scene stores .boolean : Refine hierarchy _).run state).eval =
      .ok ((), after)) :
    after.frames = state.frames ∧ after.refined = state.refined := by
  refine retypeAll_keeps (I := fun refinement => refinement.frames = state.frames ∧
    refinement.refined = state.refined) ⟨rfl, rfl⟩ ?_ ran
  intro store member slot stored earlier later ⟨frames_eq, refined_eq⟩ isStored spread
  obtain ⟨other, isStore, isSettled⟩ := settled store member
  have isSettled := isSettled.congr frames_eq refined_eq
  cases isStored.symm.trans (Scene.storedAt?_eq_some.mpr ⟨isStore, isSettled.isInt⟩)
  have inBounds := inRange _ _ _ (frames_eq ▸ isSettled.isInt)
  obtain ⟨laterFrames, laterRefined⟩ :=
    retypeFrom_of_settled (refined_eq ▸ inBounds) isSettled spread
  exact ⟨laterFrames.trans frames_eq, laterRefined.trans refined_eq⟩

/-- A boolean that is given to a boolean changes nothing. -/
theorem retypeFrom_marks
    (ran :
      ((retypeFrom scene start slot .boolean .boolean : Refine hierarchy _).run
        state).eval =
      .ok ((), after)) : state.OnlyMarks after := by
  rcases retypeFrom_eq_ok ran with ⟨inRange, _⟩ | ⟨_, rfl⟩
  · have marks : state.OnlyMarks after ∧
        ∀ next ∈ ([] : List (Nat × ValueType)), next.2 = .boolean := by
      refine retypeFrom_induction
        (P := fun spreading => state.OnlyMarks spreading.refinement ∧
        ∀ next ∈ spreading.pending, next.2 = .boolean) inRange
          ⟨.refl state, by simp⟩ ?_ ran
      rintro _ _ spreads ⟨marks, same⟩
      cases spreads with
      | passes =>
          exact ⟨marks, fun next member => same next (List.mem_cons_of_mem _ member)⟩
      | refines held _ retyped =>
          obtain ⟨rfl, rest⟩ := List.forall_mem_cons.mp same
          refine ⟨marks.trans (.refines held retyped), fun next member => ?_⟩
          rcases Query.mem_onward.mp member with ⟨_, isType⟩ | isLater
          · exact isType
          · exact rest next isLater
      | widens _ _ differs _ _ => exact absurd (same _ (List.mem_cons_self ..)) differs
    exact marks.1
  · exact .refl after

theorem retypeAll_marks {stores : List Nat}
    (all : ∀ store ∈ stores, ∃ slot, scene.storedAt? state.frames store =
      some (slot, .boolean))
    (ran : ((retypeAll scene stores .boolean : Refine hierarchy _).run state).eval =
      .ok ((), after)) : state.OnlyMarks after := by
  refine retypeAll_keeps (I := state.OnlyMarks) (.refl state) ?_ ran
  intro store member slot stored earlier later marks isStored spread
  obtain ⟨other, held⟩ := all store member
  rw [marks.frames_eq, held] at isStored
  cases isStored
  exact marks.trans (retypeFrom_marks spread)

section Stores

variable {stores : List Nat}
  (inRange : ∀ position slot type, before.frames.localAt position slot = some type →
    slot < before.refined.size)

include inRange

theorem retypeAll_tries
    (fresh : ∀ store ∈ stores, ∃ slot, scene.StoresTo slot store ∧
      before.Fresh scene slot store)
    (isTried : before.Tried base base state)
    (closed : scene.ClosedOver before.frames base)
    (ran : ((retypeAll scene stores .boolean : Refine hierarchy _).run state).eval =
      .ok ((), after)) :
    ∃ tried, before.Tried tried tried after ∧ base ⊆ tried ∧
      scene.ClosedOver before.frames tried ∧
      (∀ store ∈ stores, ∀ slot, scene.StoresTo slot store → (store + 1, slot) ∈ tried) ∧
      ∀ position slot, (position, slot) ∈ tried → (position, slot) ∈ base ∨
        ∃ store ∈ stores, scene.StoresTo slot store ∧
          scene.KeepsInt before.frames slot (store + 1) position := by
  induction stores generalizing state base with
  | nil =>
      cases retypeAll_nil_eq_ok ran
      exact ⟨base, isTried, Set.Subset.rfl, closed, by simp, fun _ _ => .inl⟩
  | cons store rest ih =>
      obtain ⟨⟨slot, isStore, isFresh⟩, restFresh⟩ := List.forall_mem_cons.mp fresh
      obtain ⟨middle, first, _, others⟩ := retypeAll_cons_eq_ok ran
      obtain ⟨stored, _, held⟩ := isTried.exists_localAt isFresh.isInt
      have spread := first slot stored (Scene.storedAt?_eq_some.mpr ⟨isStore, held⟩)
      obtain ⟨tried, middleTried, grows, middleClosed, isThere, within⟩ :=
        retypeFrom_tries (inRange _ _ _ isFresh.isInt) isFresh isTried closed held spread
      obtain ⟨last, lastTried, lastGrows, lastClosed, allThere, lastWithin⟩ :=
        ih restFresh middleTried middleClosed others
      refine ⟨last, lastTried, grows.trans lastGrows, lastClosed, ?_,
        fun position other member => ?_⟩
      · refine List.forall_mem_cons.mpr ⟨fun other alsoStores => ?_, allThere⟩
        cases isStore.symm.trans alsoStores
        exact lastGrows isThere
      · rcases lastWithin position other member with member | ⟨later, isLater, reaches⟩
        · rcases within position other member with member | ⟨rfl, keeps⟩
          · exact .inl member
          · exact .inr ⟨store, List.mem_cons_self .., isStore, keeps⟩
        · exact .inr ⟨later, List.mem_cons_of_mem _ isLater, reaches⟩

theorem retypeAll_takesBack
    (apart : ∀ position other next, (position, other) ∈ tried →
      next ∈ scene.flow.successors position →
      before.frames.localAt next other ≠ some .boolean)
    (isThere : ∀ store ∈ stores, ∃ slot, scene.StoresTo slot store ∧
      (store + 1, slot) ∈ tried)
    (isTried : before.Tried tried base state) (closed : scene.ClosedBack tried base)
    (ran : ((retypeAll scene stores .int : Refine hierarchy _).run state).eval =
      .ok ((), after)) :
    ∃ kept, before.Tried tried kept after ∧ kept ⊆ base ∧ scene.ClosedBack tried kept ∧
      ∀ store ∈ stores, ∀ slot, scene.StoresTo slot store → (store + 1, slot) ∉ kept := by
  induction stores generalizing state base with
  | nil =>
      cases retypeAll_nil_eq_ok ran
      exact ⟨base, isTried, Set.Subset.rfl, closed, by simp⟩
  | cons store rest ih =>
      obtain ⟨⟨slot, isStore, storeThere⟩, restThere⟩ := List.forall_mem_cons.mp isThere
      obtain ⟨middle, first, _, others⟩ := retypeAll_cons_eq_ok ran
      have wasInt := isTried.isInt storeThere
      obtain ⟨stored, _, held⟩ := isTried.exists_localAt wasInt
      have spread := first slot stored (Scene.storedAt?_eq_some.mpr ⟨isStore, held⟩)
      obtain ⟨middleKept, middleTried, shrinks, middleClosed, isBack⟩ :=
        retypeFrom_takesBack (inRange _ _ _ wasInt) apart isTried closed
          storeThere held spread
      obtain ⟨kept, lastTried, lastShrinks, lastClosed, allBack⟩ :=
        ih restThere middleTried middleClosed others
      refine ⟨kept, lastTried, lastShrinks.trans shrinks, lastClosed, ?_⟩
      refine List.forall_mem_cons.mpr ⟨fun other alsoStores => ?_, allBack⟩
      cases isStore.symm.trans alsoStores
      exact fun remains => isBack (lastShrinks remains)

end Stores

end Refine

end LocalTable
