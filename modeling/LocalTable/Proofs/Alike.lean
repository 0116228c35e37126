import LocalTable.Frame.Merge
import LocalTable.Proofs.Subtyping
import LocalTable.Refine

/-!
# Families of types

Types are of one family if they are equal, if both are references, or if the machine
represents both as `int`.  Types that can be joined are of one family, and so are
types of which one can be used for the other.

Types of one family are alike: a slot of the one can take the other without a change
to the slots around it, since both are upper halves of wide values, both are wide, or
neither is either.
-/

namespace LocalTable

namespace ValueType

variable {left middle right type : ValueType}

/-! ## Types of one size -/

/-- Both types are upper halves, both are wide, or neither is either. -/
structure Alike (left right : ValueType) : Prop where
  width_eq : left.width = right.width
  top_iff : left = .top ↔ right = .top

namespace Alike

theorem refl (type : ValueType) : type.Alike type :=
  ⟨rfl, .rfl⟩

theorem symm (alike : left.Alike right) : right.Alike left :=
  ⟨alike.width_eq.symm, alike.top_iff.symm⟩

theorem trans (first : left.Alike middle) (second : middle.Alike right) :
    left.Alike right :=
  ⟨first.width_eq.trans second.width_eq, first.top_iff.trans second.top_iff⟩

end Alike

/-- The type takes one slot, and is no upper half. -/
abbrev IsNarrow (type : ValueType) : Prop :=
  type.Alike .int

theorem isNarrow_of_isIntLike (isIntLike : type.isIntLike = true) : type.IsNarrow := by
  cases type <;> first | cases isIntLike; done | exact ⟨rfl, by simp⟩

theorem isNarrow_of_isReference (isReference : type.isReference = true) :
    type.IsNarrow := by
  cases type <;> first | cases isReference; done | exact ⟨rfl, by simp⟩

/-! ## Types of one family -/

/-- Both types are references, or both are types that the machine represents as `int`,
unless they are equal. -/
def SameFamily (left right : ValueType) : Prop :=
  left = right ∨ (left.isReference = true ∧ right.isReference = true) ∨
    (left.isIntLike = true ∧ right.isIntLike = true)

theorem isIntLike_of_isReference (isReference : type.isReference = true) :
    type.isIntLike = false := by
  cases type <;> first | rfl | cases isReference

namespace SameFamily

theorem refl (type : ValueType) : type.SameFamily type :=
  .inl rfl

theorem references (leftRef : left.isReference = true)
    (rightRef : right.isReference = true) :
    left.SameFamily right :=
  .inr (.inl ⟨leftRef, rightRef⟩)

theorem intLikes (leftInt : left.isIntLike = true) (rightInt : right.isIntLike = true) :
    left.SameFamily right :=
  .inr (.inr ⟨leftInt, rightInt⟩)

theorem symm (same : left.SameFamily right) : right.SameFamily left := by
  rcases same with rfl | ⟨leftRef, rightRef⟩ | ⟨leftInt, rightInt⟩
  · exact .refl _
  · exact .references rightRef leftRef
  · exact .intLikes rightInt leftInt

theorem trans (first : left.SameFamily middle) (second : middle.SameFamily right) :
    left.SameFamily right := by
  rcases first with rfl | ⟨leftRef, middleRef⟩ | ⟨leftInt, middleInt⟩
  · exact second
  · rcases second with rfl | ⟨_, rightRef⟩ | ⟨middleInt, _⟩
    · exact .references leftRef middleRef
    · exact .references leftRef rightRef
    · cases (isIntLike_of_isReference middleRef).symm.trans middleInt
  · rcases second with rfl | ⟨middleRef, _⟩ | ⟨_, rightInt⟩
    · exact .intLikes leftInt middleInt
    · cases (isIntLike_of_isReference middleRef).symm.trans middleInt
    · exact .intLikes leftInt rightInt

theorem alike (same : left.SameFamily right) : left.Alike right := by
  rcases same with rfl | ⟨leftRef, rightRef⟩ | ⟨leftInt, rightInt⟩
  · exact .refl _
  · exact (isNarrow_of_isReference leftRef).trans (isNarrow_of_isReference rightRef).symm
  · exact (isNarrow_of_isIntLike leftInt).trans (isNarrow_of_isIntLike rightInt).symm

/-- A type narrower than `int` is of the family of `int`. -/
theorem of_isNarrowerThanInt (isNarrower : type.isNarrowerThanInt = true) :
    type.SameFamily .int :=
  .intLikes (Bool.and_eq_true_iff.mp isNarrower).1 rfl

end SameFamily

theorem isIntLike_intJoin (leftIntLike : left.isIntLike = true)
    (rightIntLike : right.isIntLike = true) : (intJoin left right).isIntLike = true := by
  unfold intJoin
  split
  · exact leftIntLike
  · split
    · exact rightIntLike
    · split
      · exact leftIntLike
      · rfl

/-- An equivalence of types that holds within families and between types that are alike
only. -/
structure Kinship (K : ValueType → ValueType → Prop) : Prop where
  of_sameFamily {left right : ValueType} (same : left.SameFamily right) : K left right
  symm {left right : ValueType} (kin : K left right) : K right left
  trans {left middle right : ValueType} (first : K left middle)
    (second : K middle right) :
    K left right
  alike {left right : ValueType} (kin : K left right) : left.Alike right

theorem Kinship.refl {K : ValueType → ValueType → Prop} (kinship : Kinship K)
    (type : ValueType) : K type type :=
  kinship.of_sameFamily (.refl type)

theorem alike_kinship : Kinship Alike :=
  ⟨SameFamily.alike, .symm, .trans, id⟩

theorem sameFamily_kinship : Kinship SameFamily :=
  ⟨id, .symm, .trans, SameFamily.alike⟩

end ValueType

theorem Hierarchy.SubType.sameFamily {hierarchy : Hierarchy} {left right : ValueType}
    (below : hierarchy.SubType left right) : left.SameFamily right := by
  cases below with
  | refl => exact .refl _
  | null => exact .references rfl rfl
  | reference => exact .references rfl rfl
  | boolean intLike => exact .intLikes rfl intLike
  | int intLike => exact .intLikes intLike rfl

namespace Query

variable {hierarchy : Hierarchy} {left right type expected result : ValueType}

theorem sameFamily_of_join
    (answered : (join left right : Query hierarchy (Option ValueType)).eval =
      .ok (some result)) :
    left.SameFamily result ∧ right.SameFamily result :=
  (subType_of_join answered).imp Hierarchy.SubType.sameFamily Hierarchy.SubType.sameFamily

/-- What is merged from two slots or cells is of the family of both, or an upper half. -/
theorem sameFamily_of_mergeTypes {seeded : Bool} {first second : Option ValueType}
    (answered : (mergeTypes seeded first second : Query hierarchy _).eval =
      .ok (some result)) :
    ∃ left right, first = some left ∧ second = some right ∧
      ((left = .top ∨ right = .top) ∧ result = .top ∨
        left.SameFamily result ∧ right.SameFamily result) := by
  unfold mergeTypes at answered
  split at answered
  next left right =>
    refine ⟨left, right, rfl, rfl, ?_⟩
    split at answered
    next isTop =>
      cases answered
      exact .inl ⟨isTop, rfl⟩
    next =>
      split at answered
      next isNarrower =>
        cases answered
        simp only [Bool.and_eq_true, decide_eq_true_eq] at isNarrower
        have sameFamily := ValueType.SameFamily.of_isNarrowerThanInt isNarrower.2
        exact .inr ⟨isNarrower.1.2 ▸ sameFamily.symm, .refl _⟩
      next => exact .inr (sameFamily_of_join answered)
  next => cases answered

theorem sameFamily_of_isCompatible
    (answered : (isCompatible type expected : Query hierarchy Bool).eval = .ok true) :
    type.SameFamily expected := by
  unfold isCompatible at answered
  split at answered
  next same => exact .inl same
  next =>
    split at answered
    next isNarrower =>
      have isInt : type = .int := by simpa using answered
      exact isInt ▸ (ValueType.SameFamily.of_isNarrowerThanInt isNarrower).symm
    next =>
      split at answered
      next =>
        have isIntLike : type.isIntLike = true := by
          have oneOf : (type = .char ∨ type = .byte) ∨ type = .short := by
            simpa using answered
          rcases oneOf with (rfl | rfl) | rfl <;> rfl
        exact .intLikes isIntLike rfl
      next => cases answered
      next => cases answered
      next => cases answered
      next =>
        split at answered
        next areReferences =>
          rw [Bool.and_eq_true] at areReferences
          exact .references areReferences.1 areReferences.2
        next => cases answered

theorem looksUp_isCompatible (type expected : ValueType) :
    (isCompatible type expected : Query hierarchy Bool).LooksUp := by
  unfold isCompatible
  split
  · exact .pure _
  · split
    · exact .pure _
    · split
      · exact .pure _
      · exact .pure _
      · exact .pure _
      · exact .pure _
      · split
        · split
          · exact .pure _
          · exact .bind (looksUp_join _ _) fun _ => .pure _
        · exact .pure _

theorem failsOnly_isCompatible {E : Error → Prop}
    (missing : ∀ name, E (.unresolvedClass name)) (type expected : ValueType) :
    (isCompatible type expected : Query hierarchy Bool).FailsOnly E :=
  (looksUp_isCompatible type expected).failsOnly missing

end Query

theorem sameFamily_of_shouldRetype {type expected : ValueType}
    (should : shouldRetype type expected = true) : type.SameFamily expected := by
  unfold shouldRetype at should
  split at should
  next isNarrower =>
    have isInt : type = .int := by simpa using should
    exact isInt ▸ (ValueType.SameFamily.of_isNarrowerThanInt isNarrower).symm
  next =>
    simp only [Bool.and_eq_true] at should
    exact .references should.1.1 should.1.2

end LocalTable
