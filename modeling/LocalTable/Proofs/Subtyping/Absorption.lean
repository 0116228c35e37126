import LocalTable.Proofs.Subtyping.LeastUpperBound

/-!
# Joins of comparable types

Where the names in two types resolve, their join answers, and the larger one of two
types that can be compared is their join, from whichever side the search for it starts.
Nothing is asked of interfaces here: two types may have no least type above both, but
their join absorbs each of them.
-/

namespace LocalTable

namespace Query

open Hierarchy

variable {hierarchy : Hierarchy}

/-! ## Joins that answer -/

theorem answers_climb {other current : BinaryName} {seen : List BinaryName}
    (otherResolves : hierarchy.Resolves other) (resolves : hierarchy.Resolves current) :
    ∃ result, (climb other current seen : Query hierarchy BinaryName).eval =
      .ok result := by
  fun_induction climb other current seen with
  | case1 current seen ih =>
      rcases resolves current .refl with ⟨data, found⟩
      rw [eval_demand_of_found found]
      split
      next => exact ⟨.object, rfl⟩
      next superclass isSuperclass =>
        have isExtended : hierarchy.Extends current superclass :=
          ⟨data, found, by simp [ClassData.supertypes, isSuperclass]⟩
        rcases eval_isSubclass otherResolves superclass with ⟨covers, tested, _⟩
        change ∃ result, (isSubclass other superclass >>= _ : Query hierarchy _).eval = _
        rw [eval_bind_of_ok tested]
        cases covers with
        | true => exact ⟨superclass, rfl⟩
        | false =>
            dsimp only
            split
            next => exact ⟨.object, rfl⟩
            next isNew =>
              exact ih data found superclass isSuperclass isNew
                (resolves.of_chain (.single isExtended))

theorem answers_commonSuperclass {left right : BinaryName}
    (leftResolves : hierarchy.Resolves left) (rightResolves : hierarchy.Resolves right) :
    ∃ joined, (commonSuperclass left right : Query hierarchy BinaryName).eval =
      .ok joined := by
  by_cases below : hierarchy.Subclass left right
  · exact ⟨right, eval_commonSuperclass_of_below leftResolves below⟩
  by_cases above : hierarchy.Subclass right left
  · exact ⟨left, eval_commonSuperclass_of_above leftResolves rightResolves below above⟩
  rcases leftResolves left .refl with ⟨leftData, leftFound⟩
  rcases rightResolves right .refl with ⟨rightData, rightFound⟩
  rw [eval_commonSuperclass_of_incomparable leftResolves rightResolves leftFound
    rightFound below above]
  split
  next => exact ⟨.object, rfl⟩
  next => exact answers_climb rightResolves leftResolves

end Query

/-! ## Classes that have been joined -/

namespace Query

variable {hierarchy : Hierarchy}

@[simp] theorem eval_isSubclass_object (name : BinaryName) :
    (isSubclass name .object : Query hierarchy Bool).eval = .ok true := by
  simp [isSubclass, eval]

@[simp] theorem eval_isSubclass_self (name : BinaryName) :
    (isSubclass name name : Query hierarchy Bool).eval = .ok true := by
  simp [isSubclass, eval]

theorem eval_isSubclass_of_climb {other current result : BinaryName}
    {seen : List BinaryName}
    (answered : (climb other current seen : Query hierarchy BinaryName).eval =
      .ok result) :
    (isSubclass other result : Query hierarchy Bool).eval = .ok true := by
  fun_induction climb other current seen with
  | case1 current seen ih =>
      obtain ⟨data, found, answered⟩ := eval_demand_eq_ok answered
      split at answered
      next =>
        cases answered
        exact eval_isSubclass_object other
      next superclass isSuperclass =>
        obtain ⟨covers, tested, answered⟩ := eval_bind_eq_ok.mp answered
        cases covers with
        | true =>
            cases answered
            exact tested
        | false =>
            dsimp only at answered
            split at answered
            next =>
              cases answered
              exact eval_isSubclass_object other
            next isNew => exact ih data found superclass isSuperclass isNew answered

/-- The test that makes a class the common superclass can be repeated. -/
theorem eval_isSubclass_of_commonSuperclass {left right joined : BinaryName}
    (answered : (commonSuperclass left right : Query hierarchy BinaryName).eval =
      .ok joined) :
    (isSubclass right joined : Query hierarchy Bool).eval = .ok true := by
  obtain ⟨leftBelow, _, answered⟩ := eval_bind_eq_ok.mp answered
  cases leftBelow with
  | true =>
      cases answered
      exact eval_isSubclass_self right
  | false =>
      obtain ⟨rightBelow, rightTested, answered⟩ := eval_bind_eq_ok.mp answered
      cases rightBelow with
      | true =>
          cases answered
          exact rightTested
      | false =>
          obtain ⟨leftInterface, _, answered⟩ := eval_bind_eq_ok.mp answered
          cases leftInterface with
          | true =>
              cases answered
              exact eval_isSubclass_object right
          | false =>
              obtain ⟨rightInterface, _, answered⟩ := eval_bind_eq_ok.mp answered
              cases rightInterface with
              | true =>
                  cases answered
                  exact eval_isSubclass_object right
              | false => exact eval_isSubclass_of_climb answered

end Query

/-! ## References -/

namespace RefType

theorem className?_ofDimensions (name : BinaryName) (dimensions : Nat) :
    (ofDimensions name dimensions).className? = some name := by
  cases dimensions <;> rfl

theorem sharedDimensions_ofDimensions (name : BinaryName) (dimensions : Nat) :
    Query.sharedDimensions (ofDimensions name dimensions) = dimensions := by
  cases dimensions <;> rfl

/-- The types are those of objects, or of arrays of objects with equally many
dimensions. -/
def Parallel (left right : RefType) : Prop :=
  ∃ leftName rightName dimensions,
    left = ofDimensions leftName dimensions ∧ right = ofDimensions rightName dimensions

end RefType

namespace Hierarchy

variable {hierarchy : Hierarchy} {lower upper : RefType}

/-- A larger type is parallel, or made of the root class, with fewer dimensions. -/
theorem SubRef.parallel_or_shallower (below : hierarchy.SubRef lower upper)
    (differ : lower ≠ upper) :
    (∃ lowerName upperName dimensions, lower = .ofDimensions lowerName dimensions ∧
      upper = .ofDimensions upperName dimensions ∧
      hierarchy.Subclass lowerName upperName) ∨
    ∃ dimensions, upper = .ofDimensions .object dimensions ∧
      dimensions < lower.dimensions := by
  cases below with
  | refl => exact absurd rfl differ
  | object isSubclass => exact .inl ⟨_, _, 0, rfl, rfl, isSubclass⟩
  | objectArray extra isSubclass => exact .inl ⟨_, _, extra + 1, rfl, rfl, isSubclass⟩
  | shallower fewer => exact .inr ⟨_, rfl, fewer⟩

end Hierarchy

namespace Query

open Hierarchy

variable {hierarchy : Hierarchy} {left right : RefType}

theorem commonRefType_parallel {leftName rightName : BinaryName}
    (differ : leftName ≠ rightName) (dimensions : Nat) :
    (commonRefType (.ofDimensions leftName dimensions)
      (.ofDimensions rightName dimensions) :
        Query hierarchy RefType) =
      (do return .ofDimensions (← commonSuperclass leftName rightName) dimensions) := by
  cases dimensions <;> simp [commonRefType, RefType.ofDimensions, differ]

/-- Other types meet in objects or arrays of the root class, with the dimensions that
both can share. -/
theorem commonRefType_apart (differ : left ≠ right) (apart : ¬left.Parallel right) :
    (commonRefType left right : Query hierarchy RefType) =
      pure (.ofDimensions .object
        (min (sharedDimensions left) (sharedDimensions right))) := by
  have notCongruent : ¬Congruent left right := by
    rintro ⟨extra, leftElement, rightElement, rfl, rfl⟩
    exact apart ⟨leftElement, rightElement, extra + 1, rfl, rfl⟩
  have arrays (leftArray : left.dimensions ≠ 0) (rightArray : right.dimensions ≠ 0) :=
    meet_eq leftArray rightArray notCongruent
  unfold commonRefType
  rw [if_neg differ]
  cases left with
  | object leftName =>
      cases right with
      | object rightName => exact absurd ⟨leftName, rightName, 0, rfl, rfl⟩ apart
      | _ => simp [sharedDimensions, RefType.dimensions, RefType.ofDimensions]
  | objectArray leftExtra leftElement =>
      cases right with
      | object rightName =>
          simp [sharedDimensions, RefType.dimensions, RefType.ofDimensions]
      | objectArray rightExtra rightElement =>
          have extraDiffers : leftExtra ≠ rightExtra := by
            rintro rfl
            exact notCongruent ⟨leftExtra, leftElement, rightElement, rfl, rfl⟩
          simp only [if_neg extraDiffers,
            arrays (Nat.succ_ne_zero _) (Nat.succ_ne_zero _)]
      | primitiveArray => simp only [arrays (Nat.succ_ne_zero _) (Nat.succ_ne_zero _)]
  | primitiveArray leftExtra leftElement =>
      cases right with
      | object rightName =>
          simp [sharedDimensions, RefType.dimensions, RefType.ofDimensions]
      | _ => simp only [arrays (Nat.succ_ne_zero _) (Nat.succ_ne_zero _)]

theorem answers_commonRefType
    (leftResolves : ∀ name ∈ left.className?, hierarchy.Resolves name)
    (rightResolves : ∀ name ∈ right.className?, hierarchy.Resolves name) :
    ∃ joined, (commonRefType left right : Query hierarchy RefType).eval = .ok joined := by
  by_cases same : left = right
  · exact ⟨left, by simp [commonRefType, same]⟩
  by_cases parallel : left.Parallel right
  · rcases parallel with ⟨leftName, rightName, dimensions, rfl, rfl⟩
    rcases answers_commonSuperclass
      (leftResolves leftName (RefType.className?_ofDimensions leftName dimensions))
      (rightResolves rightName (RefType.className?_ofDimensions rightName
          dimensions)) with
      ⟨joined, answered⟩
    rw [commonRefType_parallel (by rintro rfl; exact same rfl)]
    exact ⟨_, eval_bind_of_ok answered⟩
  · rw [commonRefType_apart same parallel]
    exact ⟨_, rfl⟩

/-- A type with fewer dimensions that is made of the root class absorbs a deeper one, on
either side of it. -/
theorem commonRefType_shallower {type : RefType} {dimensions : Nat}
    (fewer : dimensions < type.dimensions) :
    (commonRefType type (.ofDimensions .object dimensions) : Query hierarchy RefType) =
        pure (.ofDimensions .object dimensions) ∧
      (commonRefType (.ofDimensions .object dimensions) type : Query hierarchy RefType) =
        pure (.ofDimensions .object dimensions) := by
  have apart : ¬type.Parallel (.ofDimensions .object dimensions) := by
    rintro ⟨name, other, depth, rfl, isOther⟩
    have deep := congrArg RefType.dimensions isOther
    simp only [RefType.dimensions_ofDimensions] at deep fewer
    omega
  have apartBack : ¬RefType.Parallel (.ofDimensions .object dimensions) type := by
    rintro ⟨other, name, depth, isOther, isType⟩
    exact apart ⟨name, other, depth, isType, isOther⟩
  have differ : type ≠ .ofDimensions .object dimensions := by
    rintro rfl
    exact apart ⟨.object, .object, dimensions, rfl, rfl⟩
  have shared : dimensions ≤ sharedDimensions type := by
    have isArray : type.dimensions ≠ 0 :=
      Nat.ne_of_gt (Nat.lt_of_le_of_lt (Nat.zero_le _) fewer)
    exact (@subRef_ofDimensions_iff hierarchy _ _ isArray).mp (.shallower fewer)
  rw [commonRefType_apart differ apart, commonRefType_apart differ.symm apartBack,
    RefType.sharedDimensions_ofDimensions, Nat.min_eq_right shared,
      Nat.min_eq_left shared]
  exact ⟨rfl, rfl⟩

theorem eval_commonRefType_of_below
    (leftResolves : ∀ name ∈ left.className?, hierarchy.Resolves name)
    (below : hierarchy.SubRef left right) :
    (commonRefType left right : Query hierarchy RefType).eval = .ok right := by
  by_cases same : left = right
  · simp [commonRefType, same]
  rcases below.parallel_or_shallower same with
    ⟨leftName, rightName, dimensions, rfl, rfl, isSubclass⟩ | ⟨dimensions, rfl, fewer⟩
  · rw [commonRefType_parallel (by rintro rfl; exact same rfl)]
    have leftResolves := leftResolves leftName (RefType.className?_ofDimensions _ _)
    exact eval_bind_of_ok (eval_commonSuperclass_of_below leftResolves isSubclass)
  · rw [(commonRefType_shallower fewer).1]
    rfl

theorem eval_commonRefType_of_above (acyclic : hierarchy.Acyclic)
    (rooted : hierarchy.Rooted)
    (leftResolves : ∀ name ∈ left.className?, hierarchy.Resolves name)
    (rightResolves : ∀ name ∈ right.className?, hierarchy.Resolves name)
    (above : hierarchy.SubRef right left) :
    (commonRefType left right : Query hierarchy RefType).eval = .ok left := by
  by_cases same : right = left
  · simp [commonRefType, same]
  rcases above.parallel_or_shallower same with
    ⟨rightName, leftName, dimensions, rfl, rfl, isSubclass⟩ | ⟨dimensions, rfl, fewer⟩
  · have differ : leftName ≠ rightName := by
      rintro rfl
      exact same rfl
    have notBelow : ¬hierarchy.Subclass leftName rightName := by
      intro below
      exact differ (subclass_antisymm acyclic rooted below isSubclass)
    have leftResolves := leftResolves leftName (RefType.className?_ofDimensions _ _)
    have rightResolves := rightResolves rightName (RefType.className?_ofDimensions _ _)
    rw [commonRefType_parallel differ]
    exact eval_bind_of_ok (eval_commonSuperclass_of_above leftResolves
      rightResolves notBelow isSubclass)
  · rw [(commonRefType_shallower fewer).2]
    rfl

theorem eval_commonRefType_parallel {lower upper : BinaryName} {dimensions : Nat}
    (tested : (isSubclass lower upper : Query hierarchy Bool).eval = .ok true) :
    (commonRefType (.ofDimensions lower dimensions) (.ofDimensions upper dimensions) :
      Query hierarchy RefType).eval = .ok (.ofDimensions upper dimensions) := by
  by_cases same : lower = upper
  · simp [commonRefType, same]
  · have common : (commonSuperclass lower upper : Query hierarchy _).eval = .ok upper :=
      eval_bind_of_ok tested
    rw [commonRefType_parallel same]
    exact eval_bind_of_ok common

/-- What two types have in common absorbs the second one of them. -/
theorem eval_commonRefType_absorbs {joined : RefType}
    (answered : (commonRefType left right : Query hierarchy RefType).eval = .ok joined) :
    (commonRefType right joined : Query hierarchy RefType).eval = .ok joined := by
  by_cases same : left = right
  · have isJoined : joined = right := by
      simpa [commonRefType, same, eq_comm] using answered
    simp [commonRefType, isJoined]
  by_cases parallel : left.Parallel right
  · obtain ⟨leftName, rightName, dimensions, rfl, rfl⟩ := parallel
    rw [commonRefType_parallel (by rintro rfl; exact same rfl)] at answered
    obtain ⟨name, common, ⟨⟩⟩ := eval_bind_eq_ok.mp answered
    exact eval_commonRefType_parallel (eval_isSubclass_of_commonSuperclass common)
  · have below := (subRef_of_commonRefType answered).2
    rw [commonRefType_apart same parallel] at answered
    obtain ⟨depth, rfl⟩ : ∃ depth, joined = .ofDimensions .object depth :=
      ⟨_, (Except.ok.inj answered).symm⟩
    by_cases isJoined : right = .ofDimensions .object depth
    · simp [commonRefType, isJoined]
    rcases below.parallel_or_shallower isJoined with
      ⟨rightName, upperName, dimensions, rfl, isUpper, _⟩ | ⟨dimensions, isUpper, fewer⟩
    · have depth_eq : depth = dimensions := by
        simpa [RefType.dimensions_ofDimensions] using congrArg RefType.dimensions isUpper
      rw [depth_eq]
      exact eval_commonRefType_parallel (eval_isSubclass_object rightName)
    · rw [isUpper, (commonRefType_shallower fewer).1]
      rfl

/-! ## Values -/

section Values

variable {left right : ValueType}

theorem answers_join (leftResolves : ∀ name ∈ left.className?, hierarchy.Resolves name)
    (rightResolves : ∀ name ∈ right.className?, hierarchy.Resolves name) :
    ∃ joined, (join left right : Query hierarchy (Option ValueType)).eval =
      .ok joined := by
  unfold join
  split
  next => exact ⟨_, rfl⟩
  next =>
    split
    next => exact ⟨_, rfl⟩
    next => exact ⟨_, rfl⟩
    next =>
      rcases answers_commonRefType leftResolves rightResolves with ⟨joined, answered⟩
      exact ⟨_, eval_bind_of_ok answered⟩
    next => split <;> exact ⟨_, rfl⟩

theorem join_of_isIntLike (leftIntLike : left.isIntLike = true)
    (rightIntLike : right.isIntLike = true) :
    (join left right : Query hierarchy (Option ValueType)) =
      pure (some (.intJoin left right)) := by
  unfold join
  split
  next same => simp [ValueType.intJoin, same]
  next =>
    split
    next => cases leftIntLike
    next => cases leftIntLike
    next => cases leftIntLike
    next => simp [leftIntLike, rightIntLike]

theorem eval_join_reference {leftRef rightRef joined : RefType}
    (answered : (commonRefType leftRef rightRef : Query hierarchy RefType).eval =
      .ok joined) :
    (join (.reference leftRef) (.reference rightRef) : Query hierarchy _).eval =
      .ok (some (.reference joined)) := by
  unfold join
  split
  next same =>
    cases same
    simpa [commonRefType] using answered
  next => exact eval_bind_of_ok answered

theorem eval_join_of_below
    (leftResolves : ∀ name ∈ left.className?, hierarchy.Resolves name)
    (below : hierarchy.SubType left right) :
    (join left right : Query hierarchy (Option ValueType)).eval = .ok (some right) := by
  cases below with
  | refl => simp [join]
  | null type => rfl
  | reference isSubtype =>
      exact eval_join_reference (eval_commonRefType_of_below leftResolves isSubtype)
  | boolean isIntLike =>
      rw [join_of_isIntLike rfl isIntLike]
      by_cases same : ValueType.boolean = right <;> simp [ValueType.intJoin, same]
  | int isIntLike =>
      rw [join_of_isIntLike isIntLike rfl]
      by_cases same : left = .int <;> simp [ValueType.intJoin, same]

theorem eval_join_of_above (acyclic : hierarchy.Acyclic) (rooted : hierarchy.Rooted)
    (leftResolves : ∀ name ∈ left.className?, hierarchy.Resolves name)
    (rightResolves : ∀ name ∈ right.className?, hierarchy.Resolves name)
    (above : hierarchy.SubType right left) :
    (join left right : Query hierarchy (Option ValueType)).eval = .ok (some left) := by
  cases above with
  | refl => simp [join]
  | null type => rfl
  | reference isSubtype =>
      exact eval_join_reference
        (eval_commonRefType_of_above acyclic rooted leftResolves rightResolves isSubtype)
  | boolean isIntLike =>
      rw [join_of_isIntLike isIntLike rfl]
      by_cases same : left = .boolean <;> simp [ValueType.intJoin, same]
  | int isIntLike =>
      rw [join_of_isIntLike rfl isIntLike]
      by_cases same : ValueType.int = right <;> simp [ValueType.intJoin, same]

/-- A join absorbs the second of the joined types, in whatever hierarchy. -/
theorem eval_join_absorbs {joined : ValueType}
    (answered : (join left right : Query hierarchy (Option ValueType)).eval =
      .ok (some joined)) :
    (join right joined : Query hierarchy (Option ValueType)).eval =
      .ok (some joined) := by
  have isSame {type : ValueType} :
      (join type type : Query hierarchy (Option ValueType)).eval = .ok (some type) := by
    simp [join]
  rcases join_eq_ok answered with ⟨rfl, isResult⟩ | ⟨type, rfl, rfl, isResult⟩ |
    ⟨type, rfl, rfl, isResult⟩ | ⟨leftRef, rightRef, type, rfl, rfl, common, isResult⟩ |
    ⟨leftIntLike, rightIntLike, isResult⟩ | impossible
  · cases isResult
    exact isSame
  · cases isResult
    exact isSame
  · cases isResult
    rfl
  · cases isResult
    exact eval_join_reference (eval_commonRefType_absorbs common)
  · apply eval_join_of_below _ (subType_of_join answered).2
    simp [ValueType.className?_of_isIntLike rightIntLike]
  · cases impossible

end Values

end Query

end LocalTable
