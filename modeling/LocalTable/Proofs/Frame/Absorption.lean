import LocalTable.Proofs.Subtyping.Absorption

/-!
# Joined frames absorb what was joined

Slots and cells are ordered by their joins, with `top` above all types and nothing above
`top`. A join of frames goes up in this order in each slot and each cell, and a frame
into which another one has been joined does not change when that one is joined again.
-/

namespace LocalTable

/-! ## The order of slots and cells -/

namespace Hierarchy

/-- The order of what slots and cells hold: a type is below another one if joining it to
that one gives that one, `top` is above all types, and nothing is above `top`. -/
inductive AbsorbedBy (hierarchy : Hierarchy) :
    Option ValueType → Option ValueType → Prop where
  | empty (held : Option ValueType) : AbsorbedBy hierarchy held none
  | top (type : ValueType) : AbsorbedBy hierarchy (some type) (some .top)
  | join {lower upper : ValueType}
      (absorbed : (Query.join lower upper : Query hierarchy _).eval = .ok (some upper)) :
      AbsorbedBy hierarchy (some lower) (some upper)

/-- What is held names only classes that resolve. -/
def ResolvesHeld (hierarchy : Hierarchy) (held : Option ValueType) : Prop :=
  ∀ type ∈ held, ∀ name ∈ type.className?, hierarchy.Resolves name

variable {hierarchy : Hierarchy} {lower upper left right merged : Option ValueType}

@[simp]
theorem resolvesHeld_none : hierarchy.ResolvesHeld none := by
  simp [ResolvesHeld]

@[simp]
theorem resolvesHeld_some {type : ValueType} : hierarchy.ResolvesHeld (some type) ↔
    ∀ name, type.className? = some name → hierarchy.Resolves name := by
  simp [ResolvesHeld]

theorem AbsorbedBy.subKnown (absorbed : hierarchy.AbsorbedBy lower upper) :
    hierarchy.SubKnown lower upper := by
  cases absorbed with
  | empty => exact .unknown lower
  | top type => exact .unusable type
  | join absorbed => exact .subType (Query.subType_of_join absorbed).1

theorem SubKnown.absorbedBy (below : hierarchy.SubKnown lower upper)
    (resolves : hierarchy.ResolvesHeld lower) : hierarchy.AbsorbedBy lower upper := by
  cases below with
  | unknown => exact .empty lower
  | unusable type => exact .top type
  | subType isSubtype => exact .join (Query.eval_join_of_below (resolves _ rfl) isSubtype)

theorem SubType.eq_top {type : ValueType} (below : hierarchy.SubType .top type) :
    type = .top := by
  cases below with
  | refl => rfl
  | int isIntLike => cases isIntLike

end Hierarchy

namespace Query

open Hierarchy

variable {hierarchy : Hierarchy} {lower upper left right merged : Option ValueType}

theorem mergeTypes_some (left right : ValueType) :
    (mergeTypes false (some left) (some right) : Query hierarchy _) =
      if left = .top ∨ right = .top then pure (some .top) else join left right := by
  simp [mergeTypes]

theorem answers_mergeTypes (leftResolves : hierarchy.ResolvesHeld left)
    (rightResolves : hierarchy.ResolvesHeld right) :
    ∃ merged, (mergeTypes false left right : Query hierarchy _).eval = .ok merged := by
  cases left with
  | none => exact ⟨none, by simp [mergeTypes]⟩
  | some left =>
      cases right with
      | none => exact ⟨none, by simp [mergeTypes]⟩
      | some right =>
          rw [mergeTypes_some]
          split
          next => exact ⟨_, rfl⟩
          next => exact answers_join (leftResolves left rfl) (rightResolves right rfl)

theorem eval_mergeTypes_of_absorbed (absorbed : hierarchy.AbsorbedBy left right) :
    (mergeTypes false left right : Query hierarchy _).eval = .ok right := by
  cases absorbed with
  | empty => simp [mergeTypes]
  | top type => simp [mergeTypes]
  | join absorbed =>
      rw [mergeTypes_some]
      split
      next unusable =>
        rcases unusable with rfl | rfl
        · rw [(subType_of_join absorbed).1.eq_top]
          rfl
        · rfl
      next => exact absorbed

theorem eval_mergeTypes_of_above (acyclic : hierarchy.Acyclic) (rooted : hierarchy.Rooted)
    (upperResolves : hierarchy.ResolvesHeld upper)
    (lowerResolves : hierarchy.ResolvesHeld lower)
    (below : hierarchy.SubKnown lower upper) :
    (mergeTypes false upper lower : Query hierarchy _).eval = .ok upper := by
  cases below with
  | unknown => simp [mergeTypes]
  | unusable type => simp [mergeTypes]
  | subType isSubtype =>
      rw [mergeTypes_some]
      split
      next unusable =>
        rcases unusable with rfl | rfl
        · rfl
        · rw [isSubtype.eq_top]
          rfl
      next =>
        exact eval_join_of_above acyclic rooted (upperResolves _ rfl)
          (lowerResolves _ rfl) isSubtype

theorem resolvesHeld_of_mergeTypes (rootResolves : hierarchy.Resolves .object)
    (leftResolves : hierarchy.ResolvesHeld left)
    (rightResolves : hierarchy.ResolvesHeld right)
    (answered : (mergeTypes false left right : Query hierarchy _).eval = .ok merged) :
    hierarchy.ResolvesHeld merged := by
  unfold mergeTypes at answered
  split at answered
  next left right =>
    split at answered
    next =>
      cases answered
      simp [ValueType.className?, ValueType.refType?]
    next =>
      rw [Bool.false_and, Bool.false_and, if_neg Bool.false_ne_true] at answered
      rcases join_eq_ok answered with ⟨_, rfl⟩ | ⟨_, _, _, rfl⟩ | ⟨_, _, _, rfl⟩ |
        ⟨leftRef, rightRef, type, rfl, rfl, common, rfl⟩ |
        ⟨leftIntLike, rightIntLike, rfl⟩ | rfl
      · exact leftResolves
      · exact rightResolves
      · exact leftResolves
      · rintro _ ⟨⟩
        exact (subRef_of_commonRefType common).1.resolves rootResolves
          (leftResolves _ rfl)
      · have isIntLike := ValueType.isIntLike_intJoin leftIntLike rightIntLike
        simp [ValueType.className?_of_isIntLike isIntLike]
      · exact resolvesHeld_none
  next =>
    cases answered
    exact resolvesHeld_none

end Query

/-! ## Frames -/

namespace Hierarchy

/-- All that slots and cells hold names only classes that resolve. -/
structure ResolvesFrame (hierarchy : Hierarchy) (frame : Frame) : Prop where
  locals : ∀ held ∈ frame.locals.toList, hierarchy.ResolvesHeld held
  stack : ∀ cell ∈ frame.stack, hierarchy.ResolvesHeld cell.type

/-- The content is above two others, and is the larger one of them if they can be
compared. -/
structure JoinedHeld (hierarchy : Hierarchy)
    (left right merged : Option ValueType) : Prop where
  left_absorbed : hierarchy.AbsorbedBy left merged
  right_absorbed : hierarchy.AbsorbedBy right merged
  eq_right : hierarchy.AbsorbedBy left right → merged = right
  eq_left : hierarchy.AbsorbedBy right left → merged = left

/-- So is the type of the cell, which has a source if both others share it and the type
can be used. -/
structure JoinedCell (hierarchy : Hierarchy) (left right merged : Cell) : Prop where
  type : hierarchy.JoinedHeld left.type right.type merged.type
  source_eq_some_iff (slot : Nat) : merged.source = some slot ↔
    left.source = some slot ∧ right.source = some slot ∧
      merged.type ≠ none ∧ merged.type ≠ some .top

variable {hierarchy : Hierarchy} {frame : Frame}

theorem ResolvesFrame.localAt (resolves : hierarchy.ResolvesFrame frame) (slot : Nat) :
    hierarchy.ResolvesHeld (frame.localAt slot) := by
  rw [Frame.localAt_eq, ← Array.getElem?_toList]
  cases found : frame.locals.toList[slot]? with
  | none => exact resolvesHeld_none
  | some held => exact resolves.locals held (List.mem_of_getElem? found)

end Hierarchy

namespace Query

open Hierarchy

variable {hierarchy : Hierarchy} {left right merged lower upper : Frame}

theorem exists_forall₂ {α β : Type} {R : α → β → Prop} {items : List α}
    (each : ∀ item ∈ items, ∃ result, R item result) :
    ∃ results, List.Forall₂ R items results := by
  induction items with
  | nil => exact ⟨[], .nil⟩
  | cons item items ih =>
      rcases each item (List.mem_cons_self ..) with ⟨result, related⟩
      rcases ih fun other member => each other (List.mem_cons_of_mem _ member) with
        ⟨results, rest⟩
      exact ⟨result :: results, .cons related rest⟩

/-- Frames of the same extent can be joined if their classes resolve. -/
theorem answers_merge (leftResolves : hierarchy.ResolvesFrame left)
    (rightResolves : hierarchy.ResolvesFrame right) (computed : left.seeded = false)
    (same : left.locals.size = right.locals.size)
    (depth : left.stack.length = right.stack.length) (position : Nat) :
    ∃ merged changed,
      (merge left right position : Query hierarchy _).eval = .ok (merged, changed) := by
  have locals : ∀ pair ∈ left.locals.toList.zip right.locals.toList, ∃ type,
      (mergeTypes false pair.1 pair.2 : Query hierarchy _).eval = .ok type := by
    rintro ⟨first, second⟩ member
    have ⟨isFirst, isSecond⟩ := List.of_mem_zip member
    exact answers_mergeTypes (leftResolves.locals first isFirst)
      (rightResolves.locals second isSecond)
  have cells : ∀ pair ∈ left.stack.zip right.stack, ∃ cell,
      JoinsCells hierarchy false pair.1 pair.2 cell := by
    rintro ⟨first, second⟩ member
    have ⟨isFirst, isSecond⟩ := List.of_mem_zip member
    rcases answers_mergeTypes (leftResolves.stack first isFirst)
      (rightResolves.stack second isSecond) with ⟨type, answered⟩
    exact ⟨⟨type, mergedSource first second type⟩, answered, rfl⟩
  rcases exists_forall₂ locals with ⟨types, mergedLocals⟩
  rcases exists_forall₂ cells with ⟨stack, mergedStack⟩
  refine ⟨{ left with locals := types.toArray, stack := stack, seeded := false },
    decide (types.toArray ≠ left.locals ∨ stack ≠ left.stack), merge_eq_ok_iff.mpr ?_⟩
  rw [computed, mergeLocals_eq_ok_iff (by simpa using same)]
  exact ⟨depth, mergedLocals, mergedStack, rfl, decide_eq_true_iff⟩

theorem resolvesFrame_of_merge (rootResolves : hierarchy.Resolves .object)
    (leftResolves : hierarchy.ResolvesFrame left)
    (rightResolves : hierarchy.ResolvesFrame right) (computed : left.seeded = false)
    (same : left.locals.size = right.locals.size) {changed : Bool}
    (joins : JoinsFrames hierarchy left right merged changed) :
    hierarchy.ResolvesFrame merged where
  locals := by
    intro held member
    rcases List.mem_iff_getElem?.mp member with ⟨slot, found⟩
    have joined := joins.locals same slot
    rw [computed, @Frame.localAt_eq merged, ← Array.getElem?_toList, found] at joined
    exact resolvesHeld_of_mergeTypes rootResolves (leftResolves.localAt slot)
      (rightResolves.localAt slot) joined
  stack := by
    intro cell member
    rcases joins.cells member with ⟨first, isFirst, second, isSecond, joined, _⟩
    rw [computed] at joined
    exact resolvesHeld_of_mergeTypes rootResolves (leftResolves.stack first isFirst)
      (rightResolves.stack second isSecond) joined

theorem forall₂_zip_of_absorbs {α : Type} {R : α → α → Prop} {S : α × α → α → Prop}
    {lowers uppers : List α} (related : List.Forall₂ R lowers uppers)
    (absorbs : ∀ lower ∈ lowers, ∀ upper ∈ uppers, R lower upper →
      S (upper, lower) upper) :
    List.Forall₂ S (uppers.zip lowers) uppers := by
  induction related with
  | nil => exact .nil
  | cons head _ ih =>
      refine .cons (absorbs _ (List.mem_cons_self ..) _
        (List.mem_cons_self ..) head) (ih ?_)
      intro lower isLower upper isUpper
      exact absorbs lower (List.mem_cons_of_mem _ isLower) upper
        (List.mem_cons_of_mem _ isUpper)

/-- A frame that forgets the sources of unusable cells absorbs each frame below it. -/
theorem merge_of_above (acyclic : hierarchy.Acyclic) (rooted : hierarchy.Rooted)
    (upperResolves : hierarchy.ResolvesFrame upper)
    (lowerResolves : hierarchy.ResolvesFrame lower) (computed : upper.seeded = false)
    (below : hierarchy.SubFrame lower upper)
    (forgets : ∀ cell ∈ upper.stack, cell.type = none ∨ cell.type = some .top →
      cell.source = none) (position : Nat) :
    (merge upper lower position : Query hierarchy _).eval = .ok (upper, false) := by
  refine merge_eq_ok_iff.mpr ⟨below.stack.length_eq.symm, ?_, ?_, ?_, by simp⟩
  · rw [computed, mergeLocals_eq_ok_iff (by simpa using below.size_eq)]
    apply forall₂_zip_of_absorbs below.forall₂_locals
    intro first isFirst second isSecond known
    exact eval_mergeTypes_of_above acyclic rooted (upperResolves.locals second isSecond)
      (lowerResolves.locals first isFirst) known
  · rw [computed]
    apply forall₂_zip_of_absorbs below.stack
    intro first isFirst second isSecond known
    refine ⟨eval_mergeTypes_of_above acyclic rooted (upperResolves.stack second isSecond)
      (lowerResolves.stack first isFirst) known.type, ?_⟩
    unfold mergedSource
    split
    next unusable => exact forgets second isSecond unusable
    next =>
      split
      next => rfl
      next differ => exact known.source.resolve_right differ
  · rw [← computed]

theorem mergedSource_eq_some_iff {first second : Cell} {type : Option ValueType}
    {slot : Nat} :
    mergedSource first second type = some slot ↔ first.source = some slot ∧
      second.source = some slot ∧ type ≠ none ∧ type ≠ some .top := by
  unfold mergedSource
  split
  next unusable =>
    simp only [reduceCtorEq, false_iff]
    rintro ⟨_, _, notEmpty, notTop⟩
    exact unusable.elim notEmpty notTop
  next usable =>
    rw [not_or] at usable
    split
    next same => simp [same, usable]
    next differ =>
      simp only [reduceCtorEq, false_iff]
      rintro ⟨isFirst, isSecond, _⟩
      exact differ (isFirst.trans isSecond.symm)

section Joins

variable (acyclic : hierarchy.Acyclic) (rooted : hierarchy.Rooted)

include acyclic rooted

theorem joinedHeld_of_mergeTypes {left right merged : Option ValueType}
    (leftResolves : hierarchy.ResolvesHeld left)
    (rightResolves : hierarchy.ResolvesHeld right)
    (answered : (mergeTypes false left right : Query hierarchy _).eval = .ok merged) :
    hierarchy.JoinedHeld left right merged where
  left_absorbed := (subKnown_of_mergeTypes answered).1.absorbedBy leftResolves
  right_absorbed := (subKnown_of_mergeTypes answered).2.absorbedBy rightResolves
  eq_right := by
    intro absorbed
    exact Except.ok.inj (answered.symm.trans (eval_mergeTypes_of_absorbed absorbed))
  eq_left := by
    intro absorbed
    have isLeft := eval_mergeTypes_of_above acyclic rooted leftResolves rightResolves
      absorbed.subKnown
    exact Except.ok.inj (answered.symm.trans isLeft)

theorem joinedCell_of_joinsCells {first second cell : Cell}
    (firstResolves : hierarchy.ResolvesHeld first.type)
    (secondResolves : hierarchy.ResolvesHeld second.type)
    (joins : JoinsCells hierarchy false first second cell) :
    hierarchy.JoinedCell first second cell where
  type := joinedHeld_of_mergeTypes acyclic rooted firstResolves secondResolves joins.1
  source_eq_some_iff := by
    intro slot
    rw [joins.2]
    exact mergedSource_eq_some_iff

/-- Frames of the same extent whose classes resolve can be joined.  Each slot and each
cell of the join is above those of both frames, the flag tells whether the first frame
changed, and joining either frame again changes nothing. -/
theorem merge_goes_up_and_absorbs (rootResolves : hierarchy.Resolves .object)
    (leftResolves : hierarchy.ResolvesFrame left)
    (rightResolves : hierarchy.ResolvesFrame right) (computed : left.seeded = false)
    (same : left.locals.size = right.locals.size)
    (depth : left.stack.length = right.stack.length) (position : Nat) :
    ∃ merged changed,
      (merge left right position : Query hierarchy _).eval = .ok (merged, changed) ∧
      merged.locals.size = left.locals.size ∧ merged.stack.length = left.stack.length ∧
      (∀ slot, hierarchy.JoinedHeld (left.localAt slot) (right.localAt slot)
        (merged.localAt slot)) ∧
      (∀ (index : Nat) cell, merged.stack[index]? = some cell →
        ∃ first second, left.stack[index]? = some first ∧
          right.stack[index]? = some second ∧
          hierarchy.JoinedCell first second cell) ∧
      (changed = true ↔ (∃ slot, merged.localAt slot ≠ left.localAt slot) ∨
        ∃ index : Nat, merged.stack[index]? ≠ left.stack[index]?) ∧
      ∀ again, (merge merged right again : Query hierarchy _).eval = .ok (merged, false) ∧
        (merge merged left again : Query hierarchy _).eval = .ok (merged, false) := by
  rcases answers_merge leftResolves rightResolves computed same depth position with
    ⟨merged, changed, answered⟩
  have joins := merge_eq_ok answered
  have ⟨_, _, cells, _, changes⟩ := merge_eq_ok_iff.mp answered
  have size_eq := joins.size_eq same
  have length_eq : merged.stack.length = left.stack.length := by
    simpa [depth] using cells.length_eq.symm
  have ⟨leftBelow, rightBelow⟩ := subFrame_of_merge computed same joins
  have resolves := resolvesFrame_of_merge rootResolves leftResolves rightResolves
    computed same joins
  have forgets : ∀ cell ∈ merged.stack, cell.type = none ∨ cell.type = some .top →
      cell.source = none := by
    intro cell member unusable
    rcases joins.cells member with ⟨first, _, second, _, _, isSource⟩
    rw [isSource, mergedSource, if_pos unusable]
  refine ⟨merged, changed, answered, size_eq, length_eq, ?_, ?_, ?_, ?_⟩
  · intro slot
    exact joinedHeld_of_mergeTypes acyclic rooted (leftResolves.localAt slot)
      (rightResolves.localAt slot) (computed ▸ joins.locals same slot)
  · intro index cell found
    rcases exists_of_forall₂ cells found with ⟨⟨first, second⟩, isPair, joined⟩
    have ⟨isFirst, isSecond⟩ := List.getElem?_zip_eq_some.mp isPair
    rw [computed] at joined
    exact ⟨first, second, isFirst, isSecond, joinedCell_of_joinsCells acyclic rooted
      (leftResolves.stack first (List.mem_of_getElem? isFirst))
      (rightResolves.stack second (List.mem_of_getElem? isSecond)) joined⟩
  · rw [changes]
    apply or_congr
    · refine ⟨fun differs => ?_, ?_⟩
      · by_contra agree
        exact differs (Frame.locals_ext size_eq (by simpa using agree))
      · rintro ⟨slot, differs⟩ agree
        exact differs (by simp [Frame.localAt_eq, agree])
    · refine ⟨fun differs => ?_, ?_⟩
      · by_contra agree
        exact differs (List.ext_getElem? (by simpa using agree))
      · rintro ⟨index, differs⟩ agree
        exact differs (by rw [agree])
  · intro again
    exact ⟨merge_of_above acyclic rooted resolves rightResolves joins.seeded_eq rightBelow
        forgets again,
      merge_of_above acyclic rooted resolves leftResolves joins.seeded_eq leftBelow
        forgets again⟩

end Joins

/-- Arrays of texts, a flag, an empty slot, and a text that came from the first slot. -/
def textFrame : Frame :=
  { locals := #[some (.reference texts), some .boolean, none]
    stack := [⟨some (.object .string), some 0⟩]
    maxStack := 1
    described := 0
    seeded := false }

/-- Arrays of builders, a number, null, and a builder that came from the first slot. -/
def builderFrame : Frame :=
  { locals := #[some (.reference builders), some .int, some .null]
    stack := [⟨some (.object Platform.abstractStringBuilder), some 0⟩]
    maxStack := 1
    described := 0
    seeded := false }

theorem sharing_merge_goes_up_and_absorbs :
    (sharing true).Acyclic ∧ (sharing true).Rooted ∧ (sharing true).Resolves .object ∧
    (sharing true).ResolvesFrame textFrame ∧ (sharing true).ResolvesFrame builderFrame ∧
    ∃ merged,
      (merge textFrame builderFrame 0 : Query (sharing true) _).eval =
        .ok (merged, true) ∧
      (∀ slot, (sharing true).JoinedHeld (textFrame.localAt slot)
        (builderFrame.localAt slot) (merged.localAt slot)) ∧
      (merge merged builderFrame 1 : Query (sharing true) _).eval = .ok (merged, false) ∧
      (merge merged textFrame 1 : Query (sharing true) _).eval = .ok (merged, false) := by
  have rootResolves := (closed_sharing true).resolves find?_sharing_object
  have textResolves := (closed_sharing true).resolves find?_sharing_string
  have builderResolves := (closed_sharing true).resolves find?_sharing_builder
  have textsResolve : (sharing true).ResolvesFrame textFrame := by
    constructor <;> simp [textFrame, texts, ValueType.object, ValueType.className?,
      ValueType.refType?, RefType.className?, textResolves]
  have buildersResolve : (sharing true).ResolvesFrame builderFrame := by
    constructor <;> simp [builderFrame, builders, ValueType.object, ValueType.className?,
      ValueType.refType?, RefType.className?, builderResolves]
  rcases merge_goes_up_and_absorbs (acyclic_sharing true) (rooted_sharing
    true) rootResolves textsResolve buildersResolve rfl rfl rfl 0 with
    ⟨merged, changed, answered, _, _, locals, _, changes, absorbs⟩
  -- The flag meets the number at the number.
  have isInt : merged.localAt 1 = some .int := (locals 1).eq_right (.join rfl)
  have isChanged : changed = true := changes.mpr (.inl ⟨1, by rw [isInt]; decide⟩)
  rw [isChanged] at answered
  exact ⟨acyclic_sharing true, rooted_sharing true, rootResolves, textsResolve,
    buildersResolve, merged, answered, locals, absorbs 1⟩

end Query

end LocalTable
