import LocalTable.Hierarchy.Platform
import LocalTable.Proofs.Subtyping.Join

/-!
# Joins are least upper bounds

References and values inherit their joins from classes.  Arrays with equally many
dimensions meet where their elements do, other arrays in an array of objects of the root
class whose dimensions both can share, and narrow types at `int`.  A join is above both
types, it is the larger one of them if they can be compared, and it is below every type
above both that is not made of an interface.  Types without a join have nothing above
both.
-/

namespace LocalTable

/-! ## References -/

/-- The class of an object, or of the elements of an array. -/
def RefType.className? : RefType → Option BinaryName
  | .object name => some name
  | .objectArray _ element => some element
  | .primitiveArray _ _ => none

namespace Hierarchy

/-- The objects, or the elements of the array, are not those of an interface. -/
def OfClass (hierarchy : Hierarchy) (type : RefType) : Prop :=
  ∀ name ∈ type.className?, hierarchy.IsClass name

variable {hierarchy : Hierarchy}

theorem Subclass.resolves {lower upper : BinaryName}
    (rootResolves : hierarchy.Resolves .object) (resolves : hierarchy.Resolves lower)
    (below : hierarchy.Subclass lower upper) :
    hierarchy.Resolves upper := by
  rcases below with isRoot | chain
  · rw [isRoot]
    exact rootResolves
  · exact resolves.of_chain chain

/-- What is above a type that resolves does so as well. -/
theorem SubRef.resolves {lower upper : RefType}
    (rootResolves : hierarchy.Resolves .object)
    (resolves : ∀ name ∈ lower.className?, hierarchy.Resolves name)
    (below : hierarchy.SubRef lower upper) :
    ∀ name ∈ upper.className?, hierarchy.Resolves name := by
  cases below with
  | refl => exact resolves
  | object isSubclass =>
      rintro _ ⟨⟩
      exact isSubclass.resolves rootResolves (resolves _ rfl)
  | objectArray extra isSubclass =>
      rintro _ ⟨⟩
      exact isSubclass.resolves rootResolves (resolves _ rfl)
  | @shallower _ dimensions _ =>
      cases dimensions with
      | zero =>
          rintro _ ⟨⟩
          exact rootResolves
      | succ extra =>
          rintro _ ⟨⟩
          exact rootResolves

theorem subRef_object_iff {left : BinaryName} {upper : RefType} :
    hierarchy.SubRef (.object left) upper ↔
      ∃ right, upper = .object right ∧ hierarchy.Subclass left right := by
  constructor
  · intro below
    cases below with
    | refl => exact ⟨left, rfl, .refl left⟩
    | object isSubclass => exact ⟨_, rfl, isSubclass⟩
    | shallower fewer => cases fewer
  · rintro ⟨right, rfl, isSubclass⟩
    exact .object isSubclass

theorem subRef_objectArray_iff {extra : Nat} {left : BinaryName} {upper : RefType} :
    hierarchy.SubRef (.objectArray extra left) upper ↔
      (∃ right, upper = .objectArray extra right ∧ hierarchy.Subclass left right) ∨
        ∃ dimensions ≤ extra, upper = .ofDimensions .object dimensions := by
  constructor
  · intro below
    cases below with
    | refl => exact .inl ⟨left, rfl, .refl left⟩
    | objectArray _ isSubclass => exact .inl ⟨_, rfl, isSubclass⟩
    | shallower fewer => exact .inr ⟨_, Nat.le_of_lt_succ fewer, rfl⟩
  · rintro (⟨right, rfl, isSubclass⟩ | ⟨dimensions, bound, rfl⟩)
    · exact .objectArray extra isSubclass
    · exact .shallower (Nat.lt_succ_of_le bound)

/-- Below an array of objects of the root class, only dimensions count. -/
theorem subRef_ofDimensions_iff {type : RefType} {dimensions : Nat}
    (isArray : type.dimensions ≠ 0) :
    hierarchy.SubRef type (.ofDimensions .object dimensions) ↔
      dimensions ≤ Query.sharedDimensions type := by
  constructor
  · intro below
    cases type with
    | object name => exact absurd rfl isArray
    | objectArray extra element =>
        have bound := below.dimensions_le
        rwa [RefType.dimensions_ofDimensions] at bound
    | primitiveArray extra element =>
        generalize isUpper : RefType.ofDimensions .object dimensions = upper at below
        cases below with
        | refl => cases dimensions <;> cases isUpper
        | shallower fewer =>
            have equal := congrArg RefType.dimensions isUpper
            rw [RefType.dimensions_ofDimensions, RefType.dimensions_ofDimensions] at equal
            exact equal ▸ Nat.le_of_lt_succ fewer
  · intro bound
    rcases Nat.eq_or_lt_of_le bound with rfl | fewer
    · exact Query.subRef_sharedDimensions isArray
    · exact .shallower (Nat.lt_of_lt_of_le fewer (Query.sharedDimensions_le type))

theorem ofDimensions_subRef {fewer dimensions : Nat} (bound : fewer ≤ dimensions) :
    hierarchy.SubRef (.ofDimensions .object dimensions)
    (.ofDimensions .object fewer) := by
  rcases Nat.eq_or_lt_of_le bound with rfl | isLess
  · exact .refl _
  · apply SubRef.shallower
    rwa [RefType.dimensions_ofDimensions]

/-- Both are arrays of objects, with equally many dimensions. -/
def Congruent (left right : RefType) : Prop :=
  ∃ extra leftElement rightElement,
    left = .objectArray extra leftElement ∧ right = .objectArray extra rightElement

theorem Congruent.symm {left right : RefType} (congruent : Congruent left right) :
    Congruent right left := by
  rcases congruent with ⟨extra, leftElement, rightElement, isLeft, isRight⟩
  exact ⟨extra, rightElement, leftElement, isRight, isLeft⟩

theorem Congruent.trans {left middle right : RefType} (first : Congruent left middle)
    (second : Congruent middle right) : Congruent left right := by
  rcases first with ⟨extra, leftElement, element, isLeft, rfl⟩
  rcases second with ⟨_, _, rightElement, ⟨⟩, isRight⟩
  exact ⟨extra, leftElement, rightElement, isLeft, isRight⟩

theorem SubRef.cases_array {type upper : RefType} (isArray : type.dimensions ≠ 0)
    (below : hierarchy.SubRef type upper) :
    upper = type ∨ Congruent type upper ∨
      ∃ dimensions, upper = .ofDimensions .object dimensions := by
  cases below with
  | refl => exact .inl rfl
  | object => exact absurd rfl isArray
  | objectArray extra => exact .inr (.inl ⟨extra, _, _, rfl, rfl⟩)
  | shallower => exact .inr (.inr ⟨_, rfl⟩)

/-- Two different arrays that do not share their elements are below nothing in common but
objects of the root class and arrays of them. -/
theorem exists_dimensions_of_common {left right upper : RefType}
    (leftArray : left.dimensions ≠ 0) (rightArray : right.dimensions ≠ 0)
    (differ : left ≠ right) (apart : ¬Congruent left right)
    (leftBelow : hierarchy.SubRef left upper)
    (rightBelow : hierarchy.SubRef right upper) :
    ∃ dimensions, upper = .ofDimensions .object dimensions := by
  rcases leftBelow.cases_array leftArray with isLeft | leftCongruent | isUpper
  · rcases rightBelow.cases_array rightArray with isRight | rightCongruent | isUpper
    · exact absurd (isLeft.symm.trans isRight) differ
    · exact absurd (isLeft ▸ rightCongruent.symm) apart
    · exact isUpper
  · rcases rightBelow.cases_array rightArray with isRight | rightCongruent | isUpper
    · exact absurd (isRight ▸ leftCongruent) apart
    · exact absurd (leftCongruent.trans rightCongruent.symm) apart
    · exact isUpper
  · exact isUpper

theorem meet_eq {left right : RefType} (leftArray : left.dimensions ≠ 0)
    (rightArray : right.dimensions ≠ 0) (apart : ¬Congruent left right) :
    Query.commonRefType.meet left right = .ofDimensions .object
      (min (Query.sharedDimensions left) (Query.sharedDimensions right)) := by
  have nearly (type : RefType) : type.dimensions - 1 ≤ Query.sharedDimensions type := by
    cases type <;> simp [Query.sharedDimensions, RefType.dimensions]
  have one (same : left.dimensions = right.dimensions) :
      Query.sharedDimensions left < left.dimensions ∨
        Query.sharedDimensions right < right.dimensions := by
    cases left with
    | object name => exact absurd rfl leftArray
    | primitiveArray extra element => exact .inl (Nat.lt_succ_self extra)
    | objectArray extra element =>
        cases right with
        | object name => exact absurd rfl rightArray
        | primitiveArray otherExtra otherElement =>
            exact .inr (Nat.lt_succ_self otherExtra)
        | objectArray otherExtra otherElement =>
            cases same
            exact absurd ⟨extra, element, otherElement, rfl, rfl⟩ apart
  have leftNearly := nearly left
  have rightNearly := nearly right
  have leftBound := Query.sharedDimensions_le left
  have rightBound := Query.sharedDimensions_le right
  unfold Query.commonRefType.meet
  dsimp only
  congr 1
  split
  next same =>
    have fewer := one same
    omega
  next =>
    split
    · omega
    · omega

theorem isJoin_object {left right joined : BinaryName}
    (join : IsJoin hierarchy.Subclass hierarchy.IsClass left right joined) :
    IsJoin hierarchy.SubRef hierarchy.OfClass (.object left) (.object right)
    (.object joined) := by
  apply join.map
  · simp [subRef_object_iff]
  · simp [OfClass, RefType.className?]
  · intro upper below
    rcases subRef_object_iff.mp below with ⟨above, isUpper, _⟩
    exact .inl ⟨above, isUpper⟩

/-- Arrays with equally many dimensions meet where their elements do. -/
theorem isJoin_objectArray {left right joined : BinaryName} (extra : Nat)
    (join : IsJoin hierarchy.Subclass hierarchy.IsClass left right joined) :
    IsJoin hierarchy.SubRef hierarchy.OfClass (.objectArray extra left)
    (.objectArray extra right)
      (.objectArray extra joined) := by
  apply join.map
  · intro lower upper
    rw [subRef_objectArray_iff]
    constructor
    · rintro (⟨other, ⟨⟩, isSubclass⟩ | ⟨dimensions, bound, isShallower⟩)
      · exact isSubclass
      · have deep := congrArg RefType.dimensions isShallower
        rw [RefType.dimensions_ofDimensions, RefType.dimensions] at deep
        omega
    · intro isSubclass
      exact .inl ⟨upper, rfl, isSubclass⟩
  · simp [OfClass, RefType.className?]
  · intro upper below
    rcases subRef_objectArray_iff.mp below with
      ⟨above, isUpper, _⟩ | ⟨dimensions, bound, rfl⟩
    · exact .inl ⟨above, isUpper⟩
    · exact .inr fun element => .shallower (Nat.lt_succ_of_le bound)

namespace WellFormed

variable {left right : RefType}

theorem subRef_antisymm (wellFormed : hierarchy.WellFormed)
    (first : hierarchy.SubRef left right) (second : hierarchy.SubRef right left) :
    left = right :=
  Hierarchy.subRef_antisymm wellFormed.acyclic wellFormed.rooted first second

theorem ofClass_ofDimensions (wellFormed : hierarchy.WellFormed) (dimensions : Nat) :
    hierarchy.OfClass (.ofDimensions .object dimensions) := by
  intro name member
  have isRoot : name = .object := by
    cases dimensions <;> exact (Option.some.inj member).symm
  exact isRoot ▸ wellFormed.isClass_object

/-- An object and an array meet at the root class. -/
theorem isJoin_object_array (wellFormed : hierarchy.WellFormed) (name : BinaryName)
    (isArray : right.dimensions ≠ 0) :
    IsJoin hierarchy.SubRef hierarchy.OfClass (.object name) right (.object .object) := by
  refine .of_least .refl wellFormed.subRef_antisymm (.object (.inl rfl))
    (.shallower (Nat.pos_of_ne_zero isArray)) (wellFormed.ofClass_ofDimensions 0) ?_
  intro upper leftBelow rightBelow
  rcases subRef_object_iff.mp leftBelow with ⟨above, rfl, _⟩
  rcases rightBelow.cases_array isArray with
    isRight | ⟨_, _, _, _, impossible⟩ | ⟨dimensions, isUpper⟩
  · rw [← isRight] at isArray
    exact absurd rfl isArray
  · cases impossible
  · cases dimensions with
    | zero =>
        rw [isUpper]
        exact .refl _
    | succ extra => cases isUpper

/-- Arrays that do not share their elements meet in arrays of objects of the root
class. -/
theorem isJoin_meet (wellFormed : hierarchy.WellFormed) (leftArray : left.dimensions ≠ 0)
    (rightArray : right.dimensions ≠ 0) (differ : left ≠ right)
    (apart : ¬Congruent left right) :
    IsJoin hierarchy.SubRef hierarchy.OfClass left right
      (Query.commonRefType.meet left right) := by
  have ⟨leftBelow, rightBelow⟩ := @Query.subRef_meet hierarchy _ _ leftArray rightArray
  have isMeet := meet_eq leftArray rightArray apart
  refine .of_least .refl wellFormed.subRef_antisymm leftBelow rightBelow
    (isMeet ▸ wellFormed.ofClass_ofDimensions _) ?_
  intro upper leftUpper rightUpper
  obtain ⟨dimensions, rfl⟩ :=
    exists_dimensions_of_common leftArray rightArray differ apart leftUpper rightUpper
  rw [isMeet]
  apply ofDimensions_subRef
  rw [Nat.le_min]
  exact ⟨(subRef_ofDimensions_iff leftArray).mp leftUpper,
    (subRef_ofDimensions_iff rightArray).mp rightUpper⟩

end WellFormed

end Hierarchy

namespace Query

open Hierarchy

variable {hierarchy : Hierarchy}

/-- References meet at the larger one of them, or at the least type of a class above
both. -/
theorem exists_commonRefType (wellFormed : hierarchy.WellFormed) {left right : RefType}
    (leftResolves : ∀ name ∈ left.className?, hierarchy.Resolves name)
    (rightResolves : ∀ name ∈ right.className?, hierarchy.Resolves name) :
    ∃ joined, (commonRefType left right : Query hierarchy RefType).eval = .ok joined ∧
      IsJoin hierarchy.SubRef hierarchy.OfClass left right joined := by
  unfold commonRefType
  split
  next same =>
    exact ⟨left, rfl, same ▸ .of_below .refl wellFormed.subRef_antisymm (.refl _)⟩
  next differ =>
    cases left with
    | object leftName =>
        cases right with
        | object rightName =>
            rcases exists_commonSuperclass wellFormed (leftResolves leftName rfl)
              (rightResolves rightName rfl) with ⟨joined, answered, join⟩
            exact ⟨.object joined, eval_bind_of_ok answered, isJoin_object join⟩
        | objectArray extra element =>
            exact ⟨_, rfl, wellFormed.isJoin_object_array _ nofun⟩
        | primitiveArray extra element =>
            exact ⟨_, rfl, wellFormed.isJoin_object_array _ nofun⟩
    | objectArray leftExtra leftElement =>
        cases right with
        | object rightName =>
            exact ⟨_, rfl, .symm (wellFormed.isJoin_object_array rightName nofun)⟩
        | objectArray rightExtra rightElement =>
            dsimp only
            split
            next same =>
              cases same
              rcases exists_commonSuperclass wellFormed (leftResolves leftElement rfl)
                (rightResolves rightElement rfl) with ⟨joined, answered, join⟩
              exact ⟨.objectArray leftExtra joined, eval_bind_of_ok answered,
                isJoin_objectArray leftExtra join⟩
            next notSame =>
              refine ⟨_, rfl, wellFormed.isJoin_meet nofun nofun differ ?_⟩
              rintro ⟨extra, _, _, ⟨⟩, ⟨⟩⟩
              exact notSame rfl
        | primitiveArray extra element =>
            refine ⟨_, rfl, wellFormed.isJoin_meet nofun nofun differ ?_⟩
            rintro ⟨_, _, _, _, ⟨⟩⟩
    | primitiveArray leftExtra leftElement =>
        have apart : ¬Congruent (.primitiveArray leftExtra leftElement) right := by
          rintro ⟨_, _, _, ⟨⟩, _⟩
        cases right with
        | object rightName =>
            exact ⟨_, rfl, .symm (wellFormed.isJoin_object_array rightName nofun)⟩
        | objectArray extra element =>
            exact ⟨_, rfl, wellFormed.isJoin_meet nofun nofun differ apart⟩
        | primitiveArray extra element =>
            exact ⟨_, rfl, wellFormed.isJoin_meet nofun nofun differ apart⟩

end Query

/-! ## Values -/

namespace ValueType

/-- The class of the objects, or of the elements of the array, if there is one. -/
def className? (type : ValueType) : Option BinaryName :=
  type.refType?.bind RefType.className?

theorem className?_of_isIntLike {type : ValueType} (intLike : type.isIntLike = true) :
    type.className? = none := by
  cases type with
  | reference => cases intLike
  | _ => rfl

theorem eq_null_or_reference {type : ValueType} (isReference : type.isReference = true) :
    type = .null ∨ ∃ ref, type = .reference ref := by
  cases type with
  | null => exact .inl rfl
  | reference ref => exact .inr ⟨ref, rfl⟩
  | _ => cases isReference

end ValueType

namespace Hierarchy

variable {hierarchy : Hierarchy} {left right upper : ValueType}

/-- The objects, or the elements of the array, are not those of an interface. -/
def ValueOfClass (hierarchy : Hierarchy) (type : ValueType) : Prop :=
  ∀ name ∈ type.className?, hierarchy.IsClass name

theorem WellFormed.subType_antisymm (wellFormed : hierarchy.WellFormed)
    (first : hierarchy.SubType left right) (second : hierarchy.SubType right left) :
    left = right :=
  Hierarchy.subType_antisymm wellFormed.acyclic wellFormed.rooted first second

theorem subType_reference_iff {type : RefType} :
    hierarchy.SubType (.reference type) upper ↔
      ∃ above, upper = .reference above ∧ hierarchy.SubRef type above := by
  constructor
  · intro below
    cases below with
    | refl => exact ⟨type, rfl, .refl type⟩
    | reference isSubtype => exact ⟨_, rfl, isSubtype⟩
    | int intLike => cases intLike
  · rintro ⟨above, rfl, isSubtype⟩
    exact .reference isSubtype

theorem isJoin_reference {left right joined : RefType}
    (join : IsJoin hierarchy.SubRef hierarchy.OfClass left right joined) :
    IsJoin hierarchy.SubType hierarchy.ValueOfClass (.reference left) (.reference right)
      (.reference joined) := by
  apply join.map
  · simp [subType_reference_iff]
  · simp [ValueOfClass, OfClass, ValueType.className?, ValueType.refType?]
  · intro upper below
    rcases subType_reference_iff.mp below with ⟨above, isUpper, _⟩
    exact .inl ⟨above, isUpper⟩

/-- Narrow types that differ, neither of them `boolean`, have only `int` above both. -/
theorem intJoin_subType (leftIntLike : left.isIntLike = true)
    (leftBelow : hierarchy.SubType left upper)
    (rightBelow : hierarchy.SubType right upper) :
    hierarchy.SubType (.intJoin left right) upper := by
  unfold ValueType.intJoin
  split_ifs with same leftBoolean rightBoolean
  · exact leftBelow
  · exact rightBelow
  · exact leftBelow
  · cases leftBelow with
    | refl =>
        cases rightBelow with
        | refl => exact absurd rfl same
        | null => cases leftIntLike
        | reference => cases leftIntLike
        | boolean => exact absurd rfl rightBoolean
        | int => exact .refl _
    | null => cases leftIntLike
    | reference => cases leftIntLike
    | boolean => exact absurd rfl leftBoolean
    | int => exact .refl _

theorem WellFormed.isJoin_intJoin (wellFormed : hierarchy.WellFormed)
    (leftIntLike : left.isIntLike = true) (rightIntLike : right.isIntLike = true) :
    IsJoin hierarchy.SubType hierarchy.ValueOfClass left right (.intJoin left right) := by
  have ⟨leftBelow, rightBelow⟩ :=
    @Query.subType_intJoin hierarchy _ _ leftIntLike rightIntLike
  apply IsJoin.of_least .refl wellFormed.subType_antisymm leftBelow rightBelow
  · intro name member
    rw [ValueType.className?_of_isIntLike
      (ValueType.isIntLike_intJoin leftIntLike rightIntLike)] at member
    cases member
  · intro upper leftUpper rightUpper
    exact intJoin_subType leftIntLike leftUpper rightUpper

theorem sameFamily_of_common (leftBelow : hierarchy.SubType left upper)
    (rightBelow : hierarchy.SubType right upper) : left.SameFamily right :=
  leftBelow.sameFamily.trans rightBelow.sameFamily.symm

/-- Types meet at the larger one of them, or at the least type of a class above both, or
have nothing above both. -/
inductive Joined (hierarchy : Hierarchy) (left right : ValueType) :
    Option ValueType → Prop where
  | type {result : ValueType}
      (isJoin : IsJoin hierarchy.SubType hierarchy.ValueOfClass left right result) :
      Joined hierarchy left right (some result)
  | nothing (apart : ∀ upper, hierarchy.SubType left upper →
      ¬hierarchy.SubType right upper) :
      Joined hierarchy left right none

variable {joined other : Option ValueType}

theorem Joined.symm (isJoined : hierarchy.Joined left right joined) :
    hierarchy.Joined right left joined := by
  cases isJoined with
  | type isJoin => exact .type isJoin.symm
  | nothing apart =>
      exact .nothing fun upper rightBelow leftBelow => apart upper leftBelow rightBelow

theorem Joined.eq_none_iff (isJoined : hierarchy.Joined left right joined) :
    joined = none ↔ ¬∃ upper, hierarchy.SubType left upper ∧
      hierarchy.SubType right upper := by
  cases isJoined with
  | type isJoin => simpa using ⟨_, isJoin.left_below, isJoin.right_below⟩
  | nothing apart => simpa using apart

theorem WellFormed.joined_unique (wellFormed : hierarchy.WellFormed)
    (isJoined : hierarchy.Joined left right joined)
    (isOther : hierarchy.Joined left right other) :
    joined = other := by
  cases isJoined with
  | type isJoin =>
      cases isOther with
      | type otherJoin => rw [isJoin.unique wellFormed.subType_antisymm otherJoin]
      | nothing apart => exact absurd isJoin.right_below (apart _ isJoin.left_below)
  | nothing apart =>
      cases isOther with
      | type otherJoin =>
          exact absurd otherJoin.right_below (apart _ otherJoin.left_below)
      | nothing => rfl

end Hierarchy

namespace Query

open Hierarchy

variable {hierarchy : Hierarchy} {left right : ValueType}

theorem exists_join (wellFormed : hierarchy.WellFormed)
    (leftResolves : ∀ name ∈ left.className?, hierarchy.Resolves name)
    (rightResolves : ∀ name ∈ right.className?, hierarchy.Resolves name) :
    ∃ joined, (join left right : Query hierarchy (Option ValueType)).eval = .ok joined ∧
      hierarchy.Joined left right joined := by
  have larger {lower upper : ValueType} (below : hierarchy.SubType lower upper) :
      IsJoin hierarchy.SubType hierarchy.ValueOfClass lower upper upper :=
    .of_below .refl wellFormed.subType_antisymm below
  unfold join
  split
  next same => exact ⟨some left, rfl, .type (same ▸ larger (.refl _))⟩
  next differ =>
    split
    next type => exact ⟨some (.reference type), rfl, .type (larger (.null type))⟩
    next type => exact ⟨some (.reference type), rfl, .type (larger (.null type)).symm⟩
    next =>
      rcases exists_commonRefType wellFormed leftResolves rightResolves with
        ⟨type, answered, isJoin⟩
      exact ⟨some (.reference type), eval_bind_of_ok answered,
        .type (isJoin_reference isJoin)⟩
    next notLeftNull notRightNull notReferences =>
      split
      next intLike =>
        rw [Bool.and_eq_true] at intLike
        exact ⟨some (.intJoin left right), rfl,
          .type (wellFormed.isJoin_intJoin intLike.1 intLike.2)⟩
      next notIntLike =>
        refine ⟨none, rfl, .nothing ?_⟩
        intro upper leftBelow rightBelow
        rcases sameFamily_of_common leftBelow rightBelow with
          same | ⟨leftRef, rightRef⟩ | intLike
        · exact differ same
        · rcases ValueType.eq_null_or_reference leftRef with rfl | ⟨leftType, rfl⟩
          · rcases ValueType.eq_null_or_reference rightRef with rfl | ⟨rightType, rfl⟩
            · exact differ rfl
            · exact notLeftNull rightType rfl rfl
          · rcases ValueType.eq_null_or_reference rightRef with rfl | ⟨rightType, rfl⟩
            · exact notRightNull leftType rfl rfl
            · exact notReferences leftType rightType rfl rfl
        · rw [Bool.and_eq_true] at notIntLike
          exact notIntLike intLike

end Query

/-! ## Classes that share a supertype -/

namespace Hierarchy

variable {hierarchy : Hierarchy} {name : BinaryName} {data : ClassData}

theorem exists_tier_of_find? (found : hierarchy.find? name = some data) :
    ∃ tier ∈ hierarchy.tiers, data ∈ tier.classes ∧ data.name = name := by
  simp only [find?, locate?, Option.map_eq_some_iff] at found
  rcases found with ⟨located, isLocated, rfl⟩
  rcases List.exists_of_findSome?_eq_some isLocated with ⟨tier, member, isHere⟩
  rcases Option.map_eq_some_iff.mp isHere with ⟨here, inTier, rfl⟩
  exact ⟨tier, member, List.mem_of_find?_eq_some
    inTier, by simpa using List.find?_some inTier⟩

/-- Where every supertype has a lower rank, supertypes run in no circle. -/
theorem acyclic_of_rank (rank : BinaryName → Nat)
    (lowers : ∀ {subclass superclass}, hierarchy.Extends subclass superclass →
      rank superclass < rank subclass) : hierarchy.Acyclic := by
  have descends {lower upper : BinaryName}
      (chain : Relation.TransGen hierarchy.Extends lower upper) :
      rank upper < rank lower := by
    induction chain with
    | single isExtended => exact lowers isExtended
    | tail _ isExtended ih => exact Nat.lt_trans (lowers isExtended) ih
  intro name circle
  exact Nat.lt_irrefl _ (descends circle)

/-- Where supertypes stand in a list before the classes below them, or these do not
stand in it at all, supertypes run in no circle. -/
theorem acyclic_of_order (order : List BinaryName)
    (ascends : ∀ tier ∈ hierarchy.tiers, ∀ data ∈ tier.classes,
      ∀ superclass ∈ data.supertypes, order.idxOf superclass < order.idxOf data.name) :
        hierarchy.Acyclic := by
  refine acyclic_of_rank order.idxOf ?_
  rintro subclass superclass ⟨data, found, member⟩
  obtain ⟨tier, inTiers, inTier, rfl⟩ := exists_tier_of_find? found
  exact ascends tier inTiers data inTier superclass member

/-- Texts and their builders, which are both sequences of characters.  The flag tells
whether these are an interface. -/
def sharing (isInterface : Bool) : Hierarchy :=
  ⟨[⟨"artifact",
    [ ⟨.object, none, [], false⟩,
      ⟨Platform.charSequence, some .object, [], isInterface⟩,
      ⟨.string, some .object, [Platform.charSequence], false⟩,
      ⟨Platform.abstractStringBuilder, some .object, [Platform.charSequence], false⟩ ]⟩]⟩

/-- Arrays of texts. -/
def texts : RefType :=
  .objectArray 0 .string

/-- Arrays of builders. -/
def builders : RefType :=
  .objectArray 0 Platform.abstractStringBuilder

variable {isInterface : Bool}

theorem find?_sharing (found : (sharing isInterface).find? name = some data) :
    (name = .object ∧ data = ⟨name, none, [], false⟩) ∨
    (name = Platform.charSequence ∧ data = ⟨name, some .object, [], isInterface⟩) ∨
    (name = .string ∨ name = Platform.abstractStringBuilder) ∧
      data = ⟨name, some .object, [Platform.charSequence], false⟩ := by
  rcases exists_tier_of_find? found with ⟨tier, inTiers, inTier, rfl⟩
  rw [List.mem_singleton.mp inTiers] at inTier
  rcases List.mem_cons.mp inTier with rfl | inTier
  · exact .inl ⟨rfl, rfl⟩
  rcases List.mem_cons.mp inTier with rfl | inTier
  · exact .inr (.inl ⟨rfl, rfl⟩)
  rcases List.mem_cons.mp inTier with rfl | inTier
  · exact .inr (.inr ⟨.inl rfl, rfl⟩)
  · rw [List.mem_singleton.mp inTier]
    exact .inr (.inr ⟨.inr rfl, rfl⟩)

theorem find?_sharing_object :
    (sharing isInterface).find? .object = some ⟨.object, none, [], false⟩ := rfl

theorem find?_sharing_charSequence : (sharing isInterface).find? Platform.charSequence =
    some ⟨Platform.charSequence, some .object, [], isInterface⟩ := rfl

theorem find?_sharing_string : (sharing isInterface).find? .string =
    some ⟨.string, some .object, [Platform.charSequence], false⟩ := rfl

theorem find?_sharing_builder :
    (sharing isInterface).find? Platform.abstractStringBuilder =
    some ⟨Platform.abstractStringBuilder, some .object, [Platform.charSequence], false⟩ :=
  rfl

theorem mem_supertypes_sharing {superclass : BinaryName}
    (found : (sharing isInterface).find? name = some data)
    (member : superclass ∈ data.supertypes) :
    (superclass = .object ∧ name ≠ .object) ∨ (superclass = Platform.charSequence ∧
      (name = .string ∨ name = Platform.abstractStringBuilder)) := by
  rcases find?_sharing found with ⟨_, rfl⟩ | ⟨rfl, rfl⟩ | ⟨isText, rfl⟩
  · cases member
  · exact .inl ⟨List.mem_singleton.mp member, by decide⟩
  · rcases List.mem_cons.mp member with isRoot | isShared
    · refine .inl ⟨isRoot, ?_⟩
      rcases isText with rfl | rfl
      · decide
      · decide
    · exact .inr ⟨List.mem_singleton.mp isShared, isText⟩

theorem closed_sharing (isInterface : Bool) : (sharing isInterface).Closed := by
  intro name data superclass found member
  rcases mem_supertypes_sharing found member with ⟨rfl, _⟩ | ⟨rfl, _⟩
  · exact ⟨_, find?_sharing_object⟩
  · exact ⟨_, find?_sharing_charSequence⟩

theorem acyclic_sharing (isInterface : Bool) : (sharing isInterface).Acyclic := by
  apply acyclic_of_rank fun name =>
    if name = .object then 0 else if name = Platform.charSequence then 1 else 2
  rintro subclass superclass ⟨data, found, member⟩
  rcases mem_supertypes_sharing found member with ⟨rfl, notRoot⟩ | ⟨rfl, rfl | rfl⟩
  · rw [if_pos rfl, if_neg notRoot]
    split <;> decide
  · decide
  · decide

theorem layered_sharing (isInterface : Bool) : (sharing isInterface).Layered where
  acyclic := acyclic_sharing isInterface
  isClass_superclass := by
    intro name data superclass found isSuperclass
    have isRoot : superclass = .object := by
      rcases find?_sharing found with ⟨_, rfl⟩ | ⟨_, rfl⟩ | ⟨_, rfl⟩
      · cases isSuperclass
      · exact (Option.some.inj isSuperclass).symm
      · exact (Option.some.inj isSuperclass).symm
    rw [isRoot]
    intro root rootFound
    cases rootFound
    rfl
  superclass_interface := by
    intro name data found isInterface
    rcases find?_sharing found with ⟨_, rfl⟩ | ⟨_, rfl⟩ | ⟨_, rfl⟩
    · cases isInterface
    · rfl
    · rfl
  isInterface_extended := by
    intro name data interface found isInterface isListed
    rcases find?_sharing found with ⟨_, rfl⟩ | ⟨_, rfl⟩ | ⟨_, rfl⟩
    · cases isListed
    · cases isListed
    · cases isInterface

theorem rooted_sharing (isInterface : Bool) : (sharing isInterface).Rooted := by
  intro data found
  cases found
  rfl

theorem wellFormed_sharing : (sharing true).WellFormed where
  toLayered := layered_sharing true
  rooted := rooted_sharing true
  isInterface_implemented := by
    intro name data interface found _ isListed
    rcases find?_sharing found with ⟨_, rfl⟩ | ⟨_, rfl⟩ | ⟨_, rfl⟩
    · cases isListed
    · cases isListed
    · rw [List.mem_singleton.mp isListed]
      intro shared sharedFound
      cases sharedFound
      rfl

end Hierarchy

namespace Query

open Hierarchy

variable {hierarchy : Hierarchy}

/-- The search for a superclass decides the order on classes, and in that order the join
of two types is the least upper bound among the types of classes, whichever of the two
comes first. -/
theorem join_is_least_upper_bound (wellFormed : hierarchy.WellFormed) :
    (∀ subclass superclass, hierarchy.Resolves subclass →
      ((isSubclass subclass superclass : Query hierarchy Bool).eval = .ok true ↔
        hierarchy.SubType (.object subclass) (.object superclass))) ∧
    ∀ left right : ValueType, (∀ name ∈ left.className?, hierarchy.Resolves name) →
      (∀ name ∈ right.className?, hierarchy.Resolves name) →
      ∃ joined, (join left right : Query hierarchy (Option ValueType)).eval = .ok joined ∧
        (join right left : Query hierarchy (Option ValueType)).eval = .ok joined ∧
        (joined = none ↔ ¬∃ upper, hierarchy.SubType left upper ∧
          hierarchy.SubType right upper) ∧
        ∀ result, joined = some result →
          hierarchy.SubType left result ∧ hierarchy.SubType right result ∧
          (hierarchy.SubType left right → result = right) ∧
          (hierarchy.SubType right left → result = left) ∧
          ∀ upper, hierarchy.ValueOfClass upper → hierarchy.SubType left upper →
            hierarchy.SubType right upper → hierarchy.SubType result upper := by
  constructor
  · intro subclass superclass resolves
    rcases eval_isSubclass resolves superclass with ⟨answer, answered, decides⟩
    rw [answered, ValueType.object, ValueType.object, subType_reference_iff]
    simp [subRef_object_iff, decides]
  · intro left right leftResolves rightResolves
    rcases exists_join wellFormed leftResolves rightResolves with
      ⟨joined, answered, isJoined⟩
    rcases exists_join wellFormed rightResolves leftResolves with
      ⟨other, otherAnswered, isOther⟩
    rw [wellFormed.joined_unique isOther.symm isJoined] at otherAnswered
    refine ⟨joined, answered, otherAnswered, isJoined.eq_none_iff, ?_⟩
    intro result isResult
    cases isResult
    cases isJoined with
    | type isJoin =>
        exact ⟨isJoin.left_below, isJoin.right_below, isJoin.eq_right,
          isJoin.eq_left, isJoin.least⟩

theorem sharing_join_is_least_upper_bound :
    (sharing true).WellFormed ∧ (sharing true).Resolves .string ∧
    (sharing true).Resolves Platform.abstractStringBuilder ∧
    ((isSubclass .string Platform.charSequence : Query (sharing true) Bool).eval =
      .ok true ↔
      (sharing true).SubType (.object .string) (.object Platform.charSequence)) ∧
    ∃ joined,
      (join (.reference texts) (.reference builders) : Query (sharing true) _).eval =
        .ok joined ∧
      (join (.reference builders) (.reference texts) : Query (sharing true) _).eval =
        .ok joined ∧
      (joined = none ↔ ¬∃ upper, (sharing true).SubType (.reference texts) upper ∧
        (sharing true).SubType (.reference builders) upper) ∧
      ∀ result, joined = some result →
        (sharing true).SubType (.reference texts) result ∧
        (sharing true).SubType (.reference builders) result ∧
        ((sharing true).SubType (.reference texts) (.reference builders) →
          result = .reference builders) ∧
        ((sharing true).SubType (.reference builders) (.reference texts) →
          result = .reference texts) ∧
        ∀ upper, (sharing true).ValueOfClass upper →
          (sharing true).SubType (.reference texts) upper →
          (sharing true).SubType (.reference builders) upper →
          (sharing true).SubType result upper := by
  have textResolves := (closed_sharing true).resolves find?_sharing_string
  have builderResolves := (closed_sharing true).resolves find?_sharing_builder
  have ⟨decides, joins⟩ := join_is_least_upper_bound wellFormed_sharing
  refine ⟨wellFormed_sharing, textResolves, builderResolves, decides _ _ textResolves, ?_⟩
  apply joins
  · rintro _ ⟨⟩
    exact textResolves
  · rintro _ ⟨⟩
    exact builderResolves

end Query

end LocalTable
