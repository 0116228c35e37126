import Mathlib.Data.List.Forall2
import LocalTable.Frame.Merge
import LocalTable.Proofs.Frame
import LocalTable.Proofs.Subtyping

/-!
# Joined frames

Joining works slot by slot and cell by cell.  A frame is below another one if each
slot and each cell of the other one holds a supertype, a type that cannot be used,
or nothing; then the join of two frames is above both of them.
-/

namespace LocalTable

namespace Query

variable {hierarchy : Hierarchy}

/-! ## Slots and cells of a join -/

theorem mergeLocals_eq_ok_iff {seeded : Bool}
    {lefts rights merged : List (Option ValueType)}
    (same : lefts.length = rights.length) :
    (mergeLocals seeded lefts rights : Query hierarchy _).eval = .ok merged ↔
      List.Forall₂ (fun pair type =>
        (mergeTypes seeded pair.1 pair.2 : Query hierarchy _).eval = .ok type)
        (lefts.zip rights) merged := by
  induction lefts generalizing rights merged with
  | nil =>
      cases rights with
      | nil =>
          constructor
          · rintro ⟨⟩
            exact .nil
          · rintro ⟨⟩
            rfl
      | cons => cases same
  | cons left lefts ih =>
      cases rights with
      | nil => cases same
      | cons right rights =>
          constructor
          · intro answered
            obtain ⟨head, headAnswered, answered⟩ := eval_bind_eq_ok.mp answered
            obtain ⟨tail, tailAnswered, isMerged⟩ := eval_bind_eq_ok.mp answered
            cases isMerged
            exact .cons headAnswered ((ih (Nat.succ.inj same)).mp tailAnswered)
          · rintro (_ | ⟨headAnswered, tailAnswered⟩)
            refine (eval_bind_of_ok headAnswered).trans ?_
            exact eval_bind_of_ok ((ih (Nat.succ.inj same)).mpr tailAnswered)

/-- The source of a joined cell of the given type. -/
def mergedSource (left right : Cell) (type : Option ValueType) : Option Nat :=
  if type = none ∨ type = some .top then none
  else if left.source = right.source then left.source
  else none

/-- The cell is the join of two cells. -/
def JoinsCells (hierarchy : Hierarchy) (seeded : Bool)
    (left right merged : Cell) : Prop :=
  (mergeTypes seeded left.type right.type : Query hierarchy _).eval = .ok merged.type ∧
    merged.source = mergedSource left right merged.type

theorem mergeCells_eq_ok_iff {seeded : Bool} {lefts rights merged : List Cell}
    (same : lefts.length = rights.length) :
    (mergeCells seeded lefts rights : Query hierarchy _).eval = .ok merged ↔
      List.Forall₂ (fun pair cell => JoinsCells hierarchy seeded pair.1 pair.2 cell)
        (lefts.zip rights) merged := by
  induction lefts generalizing rights merged with
  | nil =>
      cases rights with
      | nil =>
          constructor
          · rintro ⟨⟩
            exact .nil
          · rintro ⟨⟩
            rfl
      | cons => cases same
  | cons left lefts ih =>
      cases rights with
      | nil => cases same
      | cons right rights =>
          constructor
          · intro answered
            obtain ⟨type, typeAnswered, answered⟩ := eval_bind_eq_ok.mp answered
            obtain ⟨tail, tailAnswered, isMerged⟩ := eval_bind_eq_ok.mp answered
            cases isMerged
            exact .cons ⟨typeAnswered, rfl⟩ ((ih (Nat.succ.inj same)).mp tailAnswered)
          · rintro (_ | @⟨_, ⟨type, source⟩, _, _, ⟨typeAnswered, isSource⟩,
              tailAnswered⟩)
            obtain rfl : source = mergedSource left right type := isSource
            refine (eval_bind_of_ok typeAnswered).trans ?_
            exact eval_bind_of_ok ((ih (Nat.succ.inj same)).mpr tailAnswered)

/-- The parts of a joined frame. -/
structure JoinsFrames (hierarchy : Hierarchy) (left right merged : Frame)
    (changed : Bool) :
    Prop where
  depth_eq : left.stack.length = right.stack.length
  seeded_eq : merged.seeded = false
  maxStack_eq : merged.maxStack = left.maxStack
  size_eq : left.locals.size = right.locals.size → merged.locals.size = left.locals.size
  locals : left.locals.size = right.locals.size → ∀ slot,
    (mergeTypes left.seeded (left.localAt slot) (right.localAt slot) :
      Query hierarchy _).eval =
      .ok (merged.localAt slot)
  stack {R : Cell → Cell → Prop} (bounds : ∀ first second cell,
      JoinsCells hierarchy left.seeded first second cell → R first cell ∧ R second cell) :
    List.Forall₂ R left.stack merged.stack ∧ List.Forall₂ R right.stack merged.stack
  cells {cell : Cell} (member : cell ∈ merged.stack) : ∃ first ∈ left.stack,
    ∃ second ∈ right.stack, JoinsCells hierarchy left.seeded first second cell
  unchanged : changed = false → merged = { left with seeded := false }
  differs : changed = true → merged.locals ≠ left.locals ∨ merged.stack ≠ left.stack

theorem exists_of_forall₂ {α β : Type} {R : α → β → Prop} {lefts : List α}
    {rights : List β} (related : List.Forall₂ R lefts rights) {index : Nat} {right : β}
    (found : rights[index]? = some right) : ∃ left, lefts[index]? = some left ∧
      R left right := by
  obtain ⟨inBounds, rfl⟩ := List.getElem?_eq_some_iff.mp found
  have leftInBounds : index < lefts.length := related.length_eq ▸ inBounds
  exact ⟨lefts[index], List.getElem?_eq_getElem leftInBounds,
    related.get leftInBounds inBounds⟩

/-- A join keeps what is not known of slots and cells, apart from the mark of a
snapshot. -/
theorem merge_eq_ok_iff {left right merged : Frame} {position : Nat} {changed : Bool} :
    (merge left right position : Query hierarchy _).eval = .ok (merged, changed) ↔
      left.stack.length = right.stack.length ∧
      (mergeLocals left.seeded left.locals.toList right.locals.toList :
        Query hierarchy _).eval =
        .ok merged.locals.toList ∧
      List.Forall₂ (fun pair cell => JoinsCells hierarchy left.seeded pair.1 pair.2 cell)
        (left.stack.zip right.stack) merged.stack ∧
      merged =
        { left with locals := merged.locals, stack := merged.stack, seeded := false } ∧
      (changed = true ↔ merged.locals ≠ left.locals ∨ merged.stack ≠ left.stack) := by
  have cells_iff (depth : left.stack.length = right.stack.length) (stack : List Cell) :
      (mergeCells left.seeded left.stack.reverse right.stack.reverse :
        Query hierarchy _).eval =
          .ok stack ↔
        List.Forall₂ (fun pair cell => JoinsCells hierarchy left.seeded
          pair.1 pair.2 cell) (left.stack.zip right.stack) stack.reverse := by
    have reversed : (left.stack.reverse.zip right.stack.reverse).reverse =
        left.stack.zip right.stack := by
      have sameReversed : left.stack.reverse.length = right.stack.reverse.length := by
        simpa using depth
      simpa [List.zip] using List.reverse_zipWith (f := Prod.mk) sameReversed
    rw [mergeCells_eq_ok_iff (by simpa using depth), ← List.forall₂_reverse_iff, reversed]
  unfold merge
  split
  next differ => exact ⟨nofun, fun joins => absurd joins.1 differ⟩
  next depth =>
    have depth_eq : left.stack.length = right.stack.length := Decidable.not_not.mp depth
    constructor
    · intro answered
      obtain ⟨locals, localsAnswered, answered⟩ := eval_bind_eq_ok.mp answered
      obtain ⟨stack, stackAnswered, isMerged⟩ := eval_bind_eq_ok.mp answered
      cases isMerged
      exact ⟨depth_eq, localsAnswered,
        (cells_iff depth_eq stack).mp stackAnswered, rfl, by simp⟩
    · rintro ⟨_, localsAnswered, cells, isMerged, changes⟩
      rw [← List.reverse_reverse merged.stack, ← cells_iff depth_eq] at cells
      refine (eval_bind_of_ok localsAnswered).trans ((eval_bind_of_ok cells).trans ?_)
      have isChanged : (merged.locals ≠ left.locals || merged.stack ≠ left.stack) =
          changed := by
        rw [Bool.eq_iff_iff, changes]
        simp
      simp only [List.reverse_reverse, Array.toArray_toList, ← isMerged, isChanged]
      rfl

theorem merge_eq_ok {left right merged : Frame} {position : Nat} {changed : Bool}
    (answered : (merge left right position : Query hierarchy _).eval =
      .ok (merged, changed)) :
    JoinsFrames hierarchy left right merged changed := by
  obtain ⟨depth_eq, localsAnswered, cells, isMerged, changes⟩ :=
    merge_eq_ok_iff.mp answered
  have slots (same : left.locals.size = right.locals.size) :=
    (mergeLocals_eq_ok_iff (by simpa using same)).mp localsAnswered
  have size_eq (same : left.locals.size = right.locals.size) :
      merged.locals.size = left.locals.size := by
    simpa [same] using (slots same).length_eq.symm
  refine ⟨depth_eq, ?_, ?_, size_eq, fun same slot => ?_, fun bounds => ⟨?_, ?_⟩,
    fun member => ?_, fun unchanged => ?_, changes.mp⟩
  · rw [isMerged]
  · rw [isMerged]
  · cases found : merged.locals.toList[slot]? with
    | some type =>
        obtain ⟨⟨first, second⟩, isPair, joins⟩ := exists_of_forall₂ (slots same) found
        obtain ⟨isFirst, isSecond⟩ := List.getElem?_zip_eq_some.mp isPair
        rw [Array.getElem?_toList] at found isFirst isSecond
        simpa only [Frame.localAt_eq, found, isFirst, isSecond,
          Option.getD_some] using joins
    | none =>
        have outside : left.locals.size ≤ slot := by simpa [size_eq same] using found
        rw [Frame.localAt_eq_none outside, Frame.localAt_eq_none (same ▸ outside),
          Frame.localAt_eq_none (size_eq same ▸ outside)]
        rfl
  · have firsts := List.map_fst_zip (Nat.le_of_eq depth_eq)
    rw [← firsts, List.forall₂_map_left_iff]
    exact cells.imp fun pair cell joins => (bounds pair.1 pair.2 cell joins).1
  · have seconds := List.map_snd_zip (Nat.le_of_eq depth_eq.symm)
    rw [← seconds, List.forall₂_map_left_iff]
    exact cells.imp fun pair cell joins => (bounds pair.1 pair.2 cell joins).2
  · obtain ⟨index, found⟩ := List.mem_iff_getElem?.mp member
    obtain ⟨⟨first, second⟩, isPair, joins⟩ := exists_of_forall₂ cells found
    obtain ⟨isFirst, isSecond⟩ := List.getElem?_zip_eq_some.mp isPair
    exact ⟨first, List.mem_of_getElem? isFirst, second,
      List.mem_of_getElem? isSecond, joins⟩
  · simp only [← Bool.not_eq_true, changes, not_or, not_not] at unchanged
    rw [isMerged, unchanged.1, unchanged.2]

end Query

/-! ## The order of frames -/

namespace Hierarchy

/-- What is known of a slot or a cell, from more to less: a type, one of its
supertypes, that it cannot be used, nothing. -/
inductive SubKnown (hierarchy : Hierarchy) :
    Option ValueType → Option ValueType → Prop where
  | unknown (held : Option ValueType) : SubKnown hierarchy held none
  | unusable (type : ValueType) : SubKnown hierarchy (some type) (some .top)
  | subType {left right : ValueType} (isSubtype : hierarchy.SubType left right) :
      SubKnown hierarchy (some left) (some right)

/-- The first cell is known better: its type is, and so is its source, if that is
known at all. -/
structure SubCell (hierarchy : Hierarchy) (lower upper : Cell) : Prop where
  type : hierarchy.SubKnown lower.type upper.type
  source : upper.source = none ∨ upper.source = lower.source

/-- The first frame is at most the second one: each slot and each cell is known at
least as well. -/
structure SubFrame (hierarchy : Hierarchy) (lower upper : Frame) : Prop where
  size_eq : upper.locals.size = lower.locals.size
  locals (slot : Nat) : hierarchy.SubKnown (lower.localAt slot) (upper.localAt slot)
  stack : List.Forall₂ hierarchy.SubCell lower.stack upper.stack

variable {hierarchy : Hierarchy}

theorem SubKnown.refl (held : Option ValueType) : hierarchy.SubKnown held held := by
  cases held with
  | none => exact .unknown none
  | some type => exact .subType (.refl type)

theorem Rooted.subKnown_trans (rooted : hierarchy.Rooted)
    {left middle right : Option ValueType} (first : hierarchy.SubKnown left middle)
    (second : hierarchy.SubKnown middle right) :
    hierarchy.SubKnown left right := by
  cases second with
  | unknown => exact .unknown left
  | unusable =>
      cases first with
      | unusable type => exact .unusable type
      | subType => exact .unusable _
  | subType above =>
      cases first with
      | unusable type =>
          cases above with
          | refl => exact .unusable type
          | int isIntLike => cases isIntLike
      | subType below => exact .subType (rooted.subType_trans below above)

theorem SubCell.refl (cell : Cell) : hierarchy.SubCell cell cell :=
  ⟨.refl cell.type, .inr rfl⟩

theorem Rooted.subCell_trans (rooted : hierarchy.Rooted) {left middle right : Cell}
    (first : hierarchy.SubCell left middle) (second : hierarchy.SubCell middle right) :
    hierarchy.SubCell left right := by
  refine ⟨rooted.subKnown_trans first.type second.type, ?_⟩
  rcases second.source with isUnknown | same
  · exact .inl isUnknown
  · rw [same]
    exact first.source

theorem forall₂_trans {α : Type} {R : α → α → Prop}
    (trans : ∀ left middle right, R left middle → R middle right → R left right)
    {lefts middles rights : List α} (first : List.Forall₂ R lefts middles)
    (second : List.Forall₂ R middles rights) : List.Forall₂ R lefts rights := by
  induction first generalizing rights with
  | nil => exact second
  | cons head _ ih =>
      cases second with
      | cons nextHead nextTail => exact .cons (trans _ _ _ head nextHead) (ih nextTail)

theorem SubFrame.refl (frame : Frame) : hierarchy.SubFrame frame frame :=
  ⟨rfl, fun slot => .refl (frame.localAt slot),
    List.forall₂_same.mpr fun cell _ => .refl cell⟩

theorem SubFrame.forall₂_locals {lower upper : Frame}
    (below : hierarchy.SubFrame lower upper) :
    List.Forall₂ hierarchy.SubKnown lower.locals.toList upper.locals.toList := by
  refine List.forall₂_iff_get.mpr
    ⟨by simpa using below.size_eq.symm, fun slot inLower inUpper => ?_⟩
  have known := below.locals slot
  rw [Frame.localAt_eq, Frame.localAt_eq, ← Array.getElem?_toList,
    ← Array.getElem?_toList, List.getElem?_eq_getElem inLower,
      List.getElem?_eq_getElem inUpper] at known
  exact known

theorem Rooted.subFrame_trans (rooted : hierarchy.Rooted) {left middle right : Frame}
    (first : hierarchy.SubFrame left middle) (second : hierarchy.SubFrame middle right) :
    hierarchy.SubFrame left right :=
  ⟨second.size_eq.trans first.size_eq,
    fun slot => rooted.subKnown_trans (first.locals slot) (second.locals slot),
    forall₂_trans (R := hierarchy.SubCell) (fun _ _ _ => rooted.subCell_trans) first.stack
      second.stack⟩

end Hierarchy

namespace Query

variable {hierarchy : Hierarchy}

theorem subKnown_of_mergeTypes {left right result : Option ValueType}
    (answered : (mergeTypes false left right : Query hierarchy _).eval = .ok result) :
    hierarchy.SubKnown left result ∧ hierarchy.SubKnown right result := by
  unfold mergeTypes at answered
  split at answered
  next left right =>
    split at answered
    next =>
      cases answered
      exact ⟨.unusable left, .unusable right⟩
    next =>
      rw [Bool.false_and, Bool.false_and, if_neg Bool.false_ne_true] at answered
      cases result with
      | none => exact ⟨.unknown _, .unknown _⟩
      | some type =>
          have below := subType_of_join answered
          exact ⟨.subType below.1, .subType below.2⟩
  next =>
    cases answered
    exact ⟨.unknown _, .unknown _⟩

theorem mergedSource_eq (left right : Cell) (type : Option ValueType) :
    mergedSource left right type = none ∨
      mergedSource left right type = left.source ∧ left.source = right.source := by
  unfold mergedSource
  split
  next => exact .inl rfl
  next =>
    split
    next same => exact .inr ⟨rfl, same⟩
    next => exact .inl rfl

/-- The join of two computed frames is above both of them. -/
theorem subFrame_of_merge {left right merged : Frame} {changed : Bool}
    (computed : left.seeded = false) (same : left.locals.size = right.locals.size)
    (joins : JoinsFrames hierarchy left right merged changed) :
    hierarchy.SubFrame left merged ∧ hierarchy.SubFrame right merged := by
  have locals (slot : Nat) := subKnown_of_mergeTypes (computed ▸ joins.locals same slot)
  have stack : List.Forall₂ hierarchy.SubCell left.stack merged.stack ∧
      List.Forall₂ hierarchy.SubCell right.stack merged.stack := by
    apply joins.stack
    intro first second cell joined
    rw [computed] at joined
    obtain ⟨firstType, secondType⟩ := subKnown_of_mergeTypes joined.1
    rcases mergedSource_eq first second cell.type with isUnknown | ⟨isSource, agree⟩
    · exact ⟨⟨firstType, .inl (joined.2.trans isUnknown)⟩,
        ⟨secondType, .inl (joined.2.trans isUnknown)⟩⟩
    · exact ⟨⟨firstType, .inr (joined.2.trans isSource)⟩,
        ⟨secondType, .inr (joined.2.trans (isSource.trans agree))⟩⟩
  have size_eq := joins.size_eq same
  exact ⟨⟨size_eq, fun slot => (locals slot).1, stack.1⟩,
    ⟨size_eq.trans same, fun slot => (locals slot).2, stack.2⟩⟩

end Query

end LocalTable
