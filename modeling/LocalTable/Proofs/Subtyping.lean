import LocalTable.Hierarchy.Subtyping
import LocalTable.Proofs.Query

/-!
# Subtypes and their joins

Subtyping as a relation: a class is a subtype of the classes that its chains of
supertypes lead to and of the root class, an array of references is a subtype of
the arrays of its supertypes, and every array is a subtype of the arrays of objects
with fewer dimensions.  The search for a superclass is sound for this relation, and
the join of two types is a supertype of both.  Nothing but a missing class makes the
search or a join fail.

Where the root class has no supertypes, the relation is transitive.
-/

namespace LocalTable

namespace Hierarchy

/-- The class names the other one among its supertypes. -/
def Extends (hierarchy : Hierarchy) (subclass superclass : BinaryName) : Prop :=
  ∃ data, hierarchy.find? subclass = some data ∧ superclass ∈ data.supertypes

/-- The class is a subtype of the other one. -/
def Subclass (hierarchy : Hierarchy) (subclass superclass : BinaryName) : Prop :=
  superclass = .object ∨ Relation.ReflTransGen hierarchy.Extends subclass superclass

/-- The root class has no supertypes. -/
def Rooted (hierarchy : Hierarchy) : Prop :=
  ∀ data, hierarchy.find? .object = some data → data.supertypes = []

/-- Subtypes among references. -/
inductive SubRef (hierarchy : Hierarchy) : RefType → RefType → Prop where
  | refl (type : RefType) : SubRef hierarchy type type
  | object {left right : BinaryName} (isSubclass : hierarchy.Subclass left right) :
      SubRef hierarchy (.object left) (.object right)
  | objectArray {left right : BinaryName} (extra : Nat)
      (isSubclass : hierarchy.Subclass left right) :
      SubRef hierarchy (.objectArray extra left) (.objectArray extra right)
  | shallower {type : RefType} {dimensions : Nat} (fewer : dimensions < type.dimensions) :
      SubRef hierarchy type (.ofDimensions .object dimensions)

/-- Subtypes among all types.  A `boolean` can take part in any `int` operation, and
each narrow type can be widened to `int`. -/
inductive SubType (hierarchy : Hierarchy) : ValueType → ValueType → Prop where
  | refl (type : ValueType) : SubType hierarchy type type
  | null (type : RefType) : SubType hierarchy .null (.reference type)
  | reference {left right : RefType} (isSubtype : hierarchy.SubRef left right) :
      SubType hierarchy (.reference left) (.reference right)
  | boolean {type : ValueType} (isIntLike : type.isIntLike = true) :
      SubType hierarchy .boolean type
  | int {type : ValueType} (isIntLike : type.isIntLike = true) :
      SubType hierarchy type .int

variable {hierarchy : Hierarchy}

theorem Subclass.refl (name : BinaryName) : hierarchy.Subclass name name :=
  .inr .refl

theorem mem_mentioned_of_chain {name other : BinaryName}
    (chain : Relation.TransGen hierarchy.Extends name other) :
    other ∈ hierarchy.mentioned := by
  obtain ⟨_, _, data, found, member⟩ := Relation.TransGen.tail'_iff.mp chain
  exact mem_mentioned found member

theorem Rooted.eq_object (rooted : hierarchy.Rooted) {name : BinaryName}
    (isSubclass : hierarchy.Subclass .object name) : name = .object := by
  rcases isSubclass with isRoot | chain
  · exact isRoot
  · rcases chain.cases_head with same | ⟨superclass, ⟨data, found, member⟩, _⟩
    · exact same.symm
    · rw [rooted data found] at member
      cases member

theorem Rooted.subclass_trans (rooted : hierarchy.Rooted) {left middle right : BinaryName}
    (first : hierarchy.Subclass left middle) (second : hierarchy.Subclass middle right) :
    hierarchy.Subclass left right := by
  rcases first with rfl | below
  · exact .inl (rooted.eq_object second)
  · exact second.imp_right below.trans

theorem Rooted.subRef_trans (rooted : hierarchy.Rooted) {left middle right : RefType}
    (first : hierarchy.SubRef left middle) (second : hierarchy.SubRef middle right) :
    hierarchy.SubRef left right := by
  cases first with
  | refl => exact second
  | object below =>
      cases second with
      | refl => exact .object below
      | object above => exact .object (rooted.subclass_trans below above)
      | shallower fewer => cases fewer
  | objectArray extra below =>
      cases second with
      | refl => exact .objectArray extra below
      | objectArray _ above =>
          exact .objectArray extra (rooted.subclass_trans below above)
      | shallower fewer => exact .shallower fewer
  | @shallower _ dimensions fewer =>
      generalize isMiddle : RefType.ofDimensions .object dimensions = middle at second
      have deep : middle.dimensions = dimensions := by
        subst isMiddle
        cases dimensions <;> rfl
      cases second with
      | refl => exact isMiddle ▸ .shallower fewer
      | object above =>
          cases dimensions with
          | zero =>
              cases isMiddle
              exact rooted.eq_object above ▸ .shallower fewer
          | succ => cases isMiddle
      | objectArray extra above =>
          cases dimensions with
          | zero => cases isMiddle
          | succ =>
              cases isMiddle
              exact rooted.eq_object above ▸ .shallower fewer
      | shallower evenFewer => exact .shallower (by omega)

theorem Rooted.subType_trans (rooted : hierarchy.Rooted) {left middle right : ValueType}
    (first : hierarchy.SubType left middle) (second : hierarchy.SubType middle right) :
    hierarchy.SubType left right := by
  cases first with
  | refl => exact second
  | null type =>
      cases second with
      | refl => exact .null type
      | reference above => exact .null _
      | int isIntLike => cases isIntLike
  | reference below =>
      cases second with
      | refl => exact .reference below
      | reference above => exact .reference (rooted.subRef_trans below above)
      | int isIntLike => cases isIntLike
  | boolean isIntLike =>
      cases second with
      | refl => exact .boolean isIntLike
      | null => cases isIntLike
      | reference => cases isIntLike
      | boolean isIntLike => exact .boolean isIntLike
      | int => exact .boolean rfl
  | int isIntLike =>
      cases second with
      | refl => exact .int isIntLike
      | int => exact .int isIntLike

end Hierarchy

namespace Query

variable {hierarchy : Hierarchy}

/-! ## Searching for superclasses -/

theorem extends_of_mem_unseenSupertypes {name superclass : BinaryName} {data : ClassData}
    {seen : List BinaryName} (found : hierarchy.find? name = some data)
    (member : superclass ∈ unseenSupertypes data seen) :
    hierarchy.Extends name superclass := by
  rw [unseenSupertypes, List.mem_eraseDups, List.mem_filter] at member
  exact ⟨data, found, member.1⟩

/-- A search that finds its target leads there from a pending class. -/
theorem chain_of_reaches {target : BinaryName} {pending seen : List BinaryName}
    (answered : (reaches target pending seen : Query hierarchy Bool).eval = .ok true) :
    ∃ name ∈ pending, Relation.ReflTransGen hierarchy.Extends name target := by
  fun_induction reaches target pending seen with
  | case1 => cases answered
  | case2 => exact ⟨target, List.mem_cons_self .., .refl⟩
  | case3 seen name rest _ ih =>
      obtain ⟨data, found, answered⟩ := eval_demand_eq_ok answered
      obtain ⟨reached, member, chain⟩ := ih data found answered
      rcases List.mem_append.mp member with member | member
      · have step := extends_of_mem_unseenSupertypes found (List.mem_reverse.mp member)
        exact ⟨name, List.mem_cons_self .., .head step chain⟩
      · exact ⟨reached, List.mem_cons_of_mem _ member, chain⟩

theorem subclass_of_isSubclass {subclass superclass : BinaryName}
    (answered : (isSubclass subclass superclass : Query hierarchy Bool).eval = .ok true) :
    hierarchy.Subclass subclass superclass := by
  unfold isSubclass at answered
  split at answered
  next obvious =>
    rcases obvious with isRoot | rfl
    · exact .inl isRoot
    · exact .refl _
  next =>
    obtain ⟨name, member, chain⟩ := chain_of_reaches answered
    cases List.mem_singleton.mp member
    exact .inr chain

/-- The class that a climb ends at is a superclass of both classes. -/
theorem subclass_of_climb {other current result : BinaryName} {seen : List BinaryName}
    (answered : (climb other current seen : Query hierarchy BinaryName).eval =
      .ok result) :
    hierarchy.Subclass current result ∧ hierarchy.Subclass other result := by
  fun_induction climb other current seen with
  | case1 current seen ih =>
      obtain ⟨data, found, answered⟩ := eval_demand_eq_ok answered
      split at answered
      next =>
        cases answered
        exact ⟨.inl rfl, .inl rfl⟩
      next superclass isSuperclass =>
        have step : hierarchy.Extends current superclass :=
          ⟨data, found, by simp [ClassData.supertypes, isSuperclass]⟩
        obtain ⟨covers, tested, answered⟩ := eval_bind_eq_ok.mp answered
        cases covers with
        | true =>
            cases answered
            exact ⟨.inr (.single step), subclass_of_isSubclass tested⟩
        | false =>
            dsimp only at answered
            split at answered
            next =>
              cases answered
              exact ⟨.inl rfl, .inl rfl⟩
            next isNew =>
              obtain ⟨below, otherBelow⟩ :=
                ih data found superclass isSuperclass isNew answered
              exact ⟨below.imp_right (.head step), otherBelow⟩

theorem subclass_of_commonSuperclass {left right result : BinaryName}
    (answered : (commonSuperclass left right : Query hierarchy BinaryName).eval =
      .ok result) :
    hierarchy.Subclass left result ∧ hierarchy.Subclass right result := by
  obtain ⟨leftBelow, leftTested, answered⟩ := eval_bind_eq_ok.mp answered
  cases leftBelow with
  | true =>
      cases answered
      exact ⟨subclass_of_isSubclass leftTested, .refl _⟩
  | false =>
      obtain ⟨rightBelow, rightTested, answered⟩ := eval_bind_eq_ok.mp answered
      cases rightBelow with
      | true =>
          cases answered
          exact ⟨.refl _, subclass_of_isSubclass rightTested⟩
      | false =>
          obtain ⟨leftInterface, _, answered⟩ := eval_bind_eq_ok.mp answered
          cases leftInterface with
          | true =>
              cases answered
              exact ⟨.inl rfl, .inl rfl⟩
          | false =>
              obtain ⟨rightInterface, _, answered⟩ := eval_bind_eq_ok.mp answered
              cases rightInterface with
              | true =>
                  cases answered
                  exact ⟨.inl rfl, .inl rfl⟩
              | false => exact subclass_of_climb answered

/-! ## Joins -/

/-- An array is a subtype of the arrays of objects with the dimensions that it can
share. -/
theorem subRef_sharedDimensions {type : RefType} (isArray : type.dimensions ≠ 0) :
    hierarchy.SubRef type (.ofDimensions .object (sharedDimensions type)) := by
  cases type with
  | object name => exact absurd rfl isArray
  | objectArray extra element => exact .objectArray extra (.inl rfl)
  | primitiveArray extra element => exact .shallower (Nat.lt_succ_self extra)

theorem sharedDimensions_le (type : RefType) :
    sharedDimensions type ≤ type.dimensions := by
  cases type <;> simp [sharedDimensions, RefType.dimensions]

theorem subRef_meet {left right : RefType} (leftArray : left.dimensions ≠ 0)
    (rightArray : right.dimensions ≠ 0) :
    hierarchy.SubRef left (commonRefType.meet left right) ∧
      hierarchy.SubRef right (commonRefType.meet left right) := by
  unfold commonRefType.meet
  split
  next same => exact ⟨.shallower (by omega), .shallower (by omega)⟩
  next =>
    split
    next fewer =>
      have bound := sharedDimensions_le left
      exact ⟨subRef_sharedDimensions leftArray, .shallower (by omega)⟩
    next =>
      have bound := sharedDimensions_le right
      exact ⟨.shallower (by omega), subRef_sharedDimensions rightArray⟩

theorem subRef_of_commonRefType {left right result : RefType}
    (answered : (commonRefType left right : Query hierarchy RefType).eval = .ok result) :
    hierarchy.SubRef left result ∧ hierarchy.SubRef right result := by
  have toRoot {type : RefType} (isArray : type.dimensions ≠ 0) :
      hierarchy.SubRef type (.object .object) :=
    .shallower (Nat.pos_of_ne_zero isArray)
  unfold commonRefType at answered
  split at answered
  next same =>
    cases answered
    exact ⟨.refl _, same ▸ .refl _⟩
  next =>
    cases left with
    | object leftName =>
        cases right with
        | object rightName =>
            obtain ⟨name, found, isResult⟩ := eval_bind_eq_ok.mp answered
            cases isResult
            have common := subclass_of_commonSuperclass found
            exact ⟨.object common.1, .object common.2⟩
        | objectArray extra element =>
            cases answered
            exact ⟨.object (.inl rfl), toRoot (Nat.succ_ne_zero _)⟩
        | primitiveArray extra element =>
            cases answered
            exact ⟨.object (.inl rfl), toRoot (Nat.succ_ne_zero _)⟩
    | objectArray leftExtra leftElement =>
        cases right with
        | object rightName =>
            cases answered
            exact ⟨toRoot (Nat.succ_ne_zero _), .object (.inl rfl)⟩
        | objectArray rightExtra rightElement =>
            dsimp only at answered
            split at answered
            next same =>
              obtain ⟨name, found, isResult⟩ := eval_bind_eq_ok.mp answered
              cases isResult
              have common := subclass_of_commonSuperclass found
              exact ⟨.objectArray leftExtra common.1,
                same ▸ .objectArray leftExtra common.2⟩
            next =>
              cases answered
              exact subRef_meet (Nat.succ_ne_zero _) (Nat.succ_ne_zero _)
        | primitiveArray extra element =>
            cases answered
            exact subRef_meet (Nat.succ_ne_zero _) (Nat.succ_ne_zero _)
    | primitiveArray leftExtra leftElement =>
        cases right with
        | object rightName =>
            cases answered
            exact ⟨toRoot (Nat.succ_ne_zero _), .object (.inl rfl)⟩
        | objectArray rightExtra rightElement =>
            cases answered
            exact subRef_meet (Nat.succ_ne_zero _) (Nat.succ_ne_zero _)
        | primitiveArray extra element =>
            cases answered
            exact subRef_meet (Nat.succ_ne_zero _) (Nat.succ_ne_zero _)

/-- The outcomes of a join.  Types that differ have one only among references and
among the types that the machine represents as `int`. -/
theorem join_eq_ok {left right : ValueType} {result : Option ValueType}
    (answered : (join left right : Query hierarchy (Option ValueType)).eval =
      .ok result) :
    (left = right ∧ result = some left) ∨
    (∃ type, left = .null ∧ right = .reference type ∧ result = some right) ∨
    (∃ type, left = .reference type ∧ right = .null ∧ result = some left) ∨
    (∃ leftRef rightRef type, left = .reference leftRef ∧ right = .reference rightRef ∧
      (commonRefType leftRef rightRef : Query hierarchy RefType).eval = .ok type ∧
      result = some (.reference type)) ∨
    (left.isIntLike = true ∧ right.isIntLike = true ∧
      result = some (ValueType.intJoin left right)) ∨
    result = none := by
  unfold join at answered
  split at answered
  next same =>
    cases answered
    exact .inl ⟨same, rfl⟩
  next =>
    split at answered
    next type _ =>
      cases answered
      exact .inr (.inl ⟨type, rfl, rfl, rfl⟩)
    next type _ =>
      cases answered
      exact .inr (.inr (.inl ⟨type, rfl, rfl, rfl⟩))
    next leftRef rightRef _ =>
      obtain ⟨type, common, isResult⟩ := eval_bind_eq_ok.mp answered
      cases isResult
      exact .inr (.inr (.inr (.inl ⟨leftRef, rightRef, type, rfl, rfl, common, rfl⟩)))
    next =>
      split at answered
      next intLike =>
        rw [Bool.and_eq_true] at intLike
        cases answered
        exact .inr (.inr (.inr (.inr (.inl ⟨intLike.1, intLike.2, rfl⟩))))
      next =>
        cases answered
        exact .inr (.inr (.inr (.inr (.inr rfl))))

theorem subType_intJoin {left right : ValueType} (leftIntLike : left.isIntLike = true)
    (rightIntLike : right.isIntLike = true) :
    hierarchy.SubType left (.intJoin left right) ∧
    hierarchy.SubType right (.intJoin left right) := by
  unfold ValueType.intJoin
  split
  next same => exact ⟨.refl _, same ▸ .refl _⟩
  next =>
    split
    next isBoolean => exact ⟨isBoolean ▸ .boolean rightIntLike, .refl _⟩
    next =>
      split
      next isBoolean => exact ⟨.refl _, isBoolean ▸ .boolean leftIntLike⟩
      next => exact ⟨.int leftIntLike, .int rightIntLike⟩

/-- The join of two types is a supertype of both. -/
theorem subType_of_join {left right result : ValueType}
    (answered : (join left right : Query hierarchy (Option ValueType)).eval =
      .ok (some result)) :
    hierarchy.SubType left result ∧ hierarchy.SubType right result := by
  rcases join_eq_ok answered with ⟨rfl, isResult⟩ | ⟨type, rfl, rfl, isResult⟩ |
    ⟨type, rfl, rfl, isResult⟩ | ⟨leftRef, rightRef, type, rfl, rfl, common, isResult⟩ |
    ⟨leftIntLike, rightIntLike, isResult⟩ | impossible
  · cases isResult
    exact ⟨.refl _, .refl _⟩
  · cases isResult
    exact ⟨.null type, .refl _⟩
  · cases isResult
    exact ⟨.refl _, .null type⟩
  · cases isResult
    have below := subRef_of_commonRefType common
    exact ⟨.reference below.1, .reference below.2⟩
  · cases isResult
    exact subType_intJoin leftIntLike rightIntLike
  · cases impossible

/-! ## Missing classes -/

theorem looksUp_reaches (target : BinaryName) (pending seen : List BinaryName) :
    (reaches target pending seen : Query hierarchy Bool).LooksUp := by
  fun_induction reaches target pending seen with
  | case1 => exact .pure false
  | case2 => exact .pure true
  | case3 seen name rest _ ih => exact .demand ih

theorem looksUp_isSubclass (subclass superclass : BinaryName) :
    (isSubclass subclass superclass : Query hierarchy Bool).LooksUp := by
  unfold isSubclass
  split
  · exact .pure true
  · exact looksUp_reaches _ _ _

theorem looksUp_resolve (name : BinaryName) :
    (resolve name : Query hierarchy ClassData).LooksUp :=
  .demand fun data _ => .pure data

theorem looksUp_isInterface (name : BinaryName) :
    (isInterface name : Query hierarchy Bool).LooksUp :=
  (looksUp_resolve name).bind fun _ => .pure _

theorem looksUp_climb (other current : BinaryName) (seen : List BinaryName) :
    (climb other current seen : Query hierarchy BinaryName).LooksUp := by
  fun_induction climb other current seen with
  | case1 current seen ih =>
      refine .demand fun data found => ?_
      split
      next => exact .pure _
      next superclass isSuperclass =>
        refine .bind (looksUp_isSubclass _ _) fun covers => ?_
        cases covers with
        | true => exact .pure superclass
        | false =>
            dsimp only
            split
            next => exact .pure _
            next isNew => exact ih data found superclass isSuperclass isNew

theorem looksUp_commonSuperclass (left right : BinaryName) :
    (commonSuperclass left right : Query hierarchy BinaryName).LooksUp := by
  refine .bind (looksUp_isSubclass _ _) fun leftBelow => ?_
  cases leftBelow with
  | true => exact .pure right
  | false =>
      refine .bind (looksUp_isSubclass _ _) fun rightBelow => ?_
      cases rightBelow with
      | true => exact .pure left
      | false =>
          refine .bind (looksUp_isInterface left) fun leftInterface => ?_
          cases leftInterface with
          | true => exact .pure _
          | false =>
              refine .bind (looksUp_isInterface right) fun rightInterface => ?_
              cases rightInterface with
              | true => exact .pure _
              | false => exact looksUp_climb _ _ _

theorem looksUp_commonRefType (left right : RefType) :
    (commonRefType left right : Query hierarchy RefType).LooksUp := by
  unfold commonRefType
  split
  · exact .pure left
  · split
    · exact .bind (looksUp_commonSuperclass _ _) fun _ => .pure _
    · exact .pure _
    · exact .pure _
    · split
      · split
        · exact .bind (looksUp_commonSuperclass _ _) fun _ => .pure _
        · exact .pure _
      · exact .pure _

/-- A join does nothing but look classes up. -/
theorem looksUp_join (left right : ValueType) :
    (join left right : Query hierarchy (Option ValueType)).LooksUp := by
  unfold join
  split
  · exact .pure _
  · split
    · exact .pure _
    · exact .pure _
    · exact .bind (looksUp_commonRefType _ _) fun _ => .pure _
    · split
      · exact .pure _
      · exact .pure _

section Missing

variable {E : Error → Prop} (missing : ∀ name, E (.unresolvedClass name))

include missing

theorem failsOnly_isSubclass (subclass superclass : BinaryName) :
    (isSubclass subclass superclass : Query hierarchy Bool).FailsOnly E :=
  (looksUp_isSubclass subclass superclass).failsOnly missing

/-- A join fails only if one of the classes that it asks for is missing. -/
theorem failsOnly_join (left right : ValueType) :
    (join left right : Query hierarchy (Option ValueType)).FailsOnly E :=
  (looksUp_join left right).failsOnly missing

end Missing

end Query

end LocalTable
