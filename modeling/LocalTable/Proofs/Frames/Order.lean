import LocalTable.Proofs.Frames.Settling
import LocalTable.Proofs.Subtyping.LeastUpperBound

/-!
# The order in which paths meet

Joins can be nested in two ways, and three paths can meet in several orders.  Both ways
give the same type unless one of the outer types is an interface, or an array of its
objects, that is above both other types but not above their join: classes that share an
interface meet at the root class, while each of them meets the interface at the
interface.  Among types that are not made of interfaces a join is least above both, so
any number of paths meet at the least type above all of them, in whatever order they
come.
-/

namespace LocalTable

/-! ## Nested joins in an order -/

namespace IsJoin

variable {α : Type} {below : α → α → Prop} {plain : α → Prop}

theorem plain_of_plain {left right joined : α}
    (join : IsJoin below plain left right joined) (leftPlain : plain left)
    (rightPlain : plain right) : plain joined := by
  rcases join.comparable_or_plain with ascends | descends | isPlain
  · exact join.eq_right ascends ▸ rightPlain
  · exact join.eq_left descends ▸ leftPlain
  · exact isPlain

variable {first middle last early late left right : α}

/-- One nesting is below the other one, unless the last element is above the first two
only. -/
theorem nested_below (earlyJoin : IsJoin below plain first middle early)
    (leftJoin : IsJoin below plain early last left)
    (lateJoin : IsJoin below plain middle last late)
    (rightJoin : IsJoin below plain first late right)
    (trans : ∀ {lower between upper}, below lower between → below between upper →
      below lower upper)
    (covered : below first last → below middle last → below early last) :
    below left right := by
  have lastBelow := trans lateJoin.right_below rightJoin.right_below
  have ofPlain (isPlain : plain right) : below left right := by
    have middleBelow := trans lateJoin.left_below rightJoin.right_below
    have earlyBelow := earlyJoin.least right isPlain rightJoin.left_below middleBelow
    exact leftJoin.least right isPlain earlyBelow lastBelow
  rcases rightJoin.comparable_or_plain with ascends | descends | isPlain
  · have isLate := rightJoin.eq_right ascends
    rcases lateJoin.comparable_or_plain with middleBelow | lastLower | isPlain
    · -- The last element is the largest of the three.
      have isLast := lateJoin.eq_right middleBelow
      rw [isLast] at ascends
      rw [leftJoin.eq_right (covered ascends middleBelow)]
      exact lastBelow
    · -- The middle element is the largest of the three.
      have isMiddle := lateJoin.eq_left lastLower
      have earlyMiddle := earlyJoin.eq_right (isMiddle ▸ ascends)
      rw [leftJoin.eq_left (earlyMiddle ▸ lastLower), earlyMiddle, isLate]
      exact lateJoin.left_below
    · exact ofPlain (isLate ▸ isPlain)
  · -- The first element is the largest of the three.
    have earlyFirst := earlyJoin.eq_left (trans lateJoin.left_below descends)
    have lastLower := trans lateJoin.right_below descends
    rw [leftJoin.eq_left (earlyFirst ▸ lastLower), earlyFirst]
    exact rightJoin.left_below
  · exact ofPlain isPlain

/-- Nested joins agree unless an outer element is above both others but not above their
join. -/
theorem nested_eq_iff (earlyJoin : IsJoin below plain first middle early)
    (leftJoin : IsJoin below plain early last left)
    (lateJoin : IsJoin below plain middle last late)
    (rightJoin : IsJoin below plain first late right)
    (trans : ∀ {lower between upper}, below lower between → below between upper →
      below lower upper)
    (antisymm : ∀ {lower upper}, below lower upper → below upper lower → lower = upper) :
    left = right ↔ (below first last → below middle last → below early last) ∧
      (below middle first → below last first → below late first) := by
  constructor
  · intro same
    constructor
    · intro firstBelow middleBelow
      have isLast := lateJoin.eq_right middleBelow
      have rightLast := rightJoin.eq_right (isLast ▸ firstBelow)
      rw [← isLast, ← rightLast, ← same]
      exact leftJoin.left_below
    · intro middleBelow lastBelow
      have isFirst := earlyJoin.eq_left middleBelow
      have leftFirst := leftJoin.eq_left (isFirst ▸ lastBelow)
      rw [← isFirst, ← leftFirst, same]
      exact rightJoin.right_below
  · rintro ⟨lastCovers, firstCovers⟩
    apply antisymm
    · exact nested_below earlyJoin leftJoin lateJoin rightJoin trans lastCovers
    · apply nested_below lateJoin.symm rightJoin.symm earlyJoin.symm leftJoin.symm trans
      intro lastBelow middleBelow
      exact firstCovers middleBelow lastBelow

end IsJoin

/-- The least plain element above all members. -/
structure IsBound {α : Type} (below : α → α → Prop) (plain : α → Prop) (members : List α)
    (bound : α) : Prop where
  isPlain : plain bound
  above : ∀ member ∈ members, below member bound
  least : ∀ upper, plain upper → (∀ member ∈ members, below member upper) →
    below bound upper

namespace IsBound

variable {α : Type} {below : α → α → Prop} {plain : α → Prop} {members others : List α}
  {bound next joined : α}

theorem singleton (refl : ∀ element, below element element) (isPlain : plain bound) :
    IsBound below plain [bound] bound where
  isPlain := isPlain
  above := by
    intro member isBound
    rw [List.mem_singleton.mp isBound]
    exact refl bound
  least := fun upper _ allBelow => allBelow bound (List.mem_singleton_self bound)

theorem join (isBound : IsBound below plain members bound) (nextPlain : plain next)
    (isJoin : IsJoin below plain bound next joined)
    (trans : ∀ {lower between upper}, below lower between → below between upper →
      below lower upper) :
    IsBound below plain (members ++ [next]) joined where
  isPlain := isJoin.plain_of_plain isBound.isPlain nextPlain
  above := by
    intro member inAll
    rcases List.mem_append.mp inAll with isMember | isNext
    · exact trans (isBound.above member isMember) isJoin.left_below
    · rw [List.mem_singleton.mp isNext]
      exact isJoin.right_below
  least := by
    intro upper upperPlain allBelow
    apply isJoin.least upper upperPlain
    · apply isBound.least upper upperPlain
      intro member isMember
      exact allBelow member (List.mem_append_left _ isMember)
    · exact allBelow next (List.mem_append_right _ (List.mem_singleton_self next))

theorem eq_of_perm (isBound : IsBound below plain members bound)
    (isOther : IsBound below plain others joined) (perm : members.Perm others)
    (antisymm : ∀ {lower upper}, below lower upper → below upper lower → lower = upper) :
    bound = joined := by
  apply antisymm
  · apply isBound.least joined isOther.isPlain
    intro member isMember
    exact isOther.above member (perm.mem_iff.mp isMember)
  · apply isOther.least bound isBound.isPlain
    intro member isMember
    exact isBound.above member (perm.mem_iff.mpr isMember)

end IsBound

/-! ## Plain types -/

namespace Hierarchy

variable {hierarchy : Hierarchy}

theorem null_subType {type : ValueType} (isReference : type.isReference = true) :
    hierarchy.SubType .null type := by
  rcases ValueType.eq_null_or_reference isReference with rfl | ⟨ref, rfl⟩
  · exact .refl _
  · exact .null ref

theorem subType_anyObject {type : ValueType} (isReference : type.isReference = true) :
    hierarchy.SubType type .anyObject := by
  rcases ValueType.eq_null_or_reference isReference with rfl | ⟨ref, rfl⟩
  · exact .null _
  · apply SubType.reference
    cases ref with
    | object name => exact .object (.inl rfl)
    | objectArray extra element => exact @SubRef.shallower _ _ 0 (Nat.succ_pos extra)
    | primitiveArray extra element => exact @SubRef.shallower _ _ 0 (Nat.succ_pos extra)

/-- A reference, or the null literal, that resolves and is not made of an interface. -/
structure IsPlain (hierarchy : Hierarchy) (type : ValueType) : Prop where
  isReference : type.isReference = true
  ofClass : hierarchy.ValueOfClass type
  resolves : ∀ name ∈ type.className?, hierarchy.Resolves name

theorem Closed.isPlain_array (closed : hierarchy.Closed) {name : BinaryName}
    {data : ClassData} (found : hierarchy.find? name = some data)
    (isClass : data.isInterface = false) (extra : Nat) :
    hierarchy.IsPlain (.reference (.objectArray extra name)) where
  isReference := rfl
  ofClass := by
    rintro _ ⟨⟩ other otherFound
    cases found.symm.trans otherFound
    exact isClass
  resolves := by
    rintro _ ⟨⟩
    exact closed.resolves found

end Hierarchy

namespace Query

open Hierarchy

variable {hierarchy : Hierarchy}

/-! ## Paths -/

/-- Join the first two, then the last one. -/
def joinEarly (first middle last : RefType) : Query hierarchy RefType := do
  commonRefType (← commonRefType first middle) last

/-- Join the last two, then the first one. -/
def joinLate (first middle last : RefType) : Query hierarchy RefType := do
  commonRefType first (← commonRefType middle last)

/-- What a slot holds where the first path is met by one path after the other. -/
def mergePaths (seeded : Bool) (first : ValueType) (rest : List ValueType) :
    Query hierarchy (Option ValueType) :=
  rest.foldlM (fun held type => mergeTypes seeded held (some type)) (some first)

theorem mergeTypes_of_isReference (seeded : Bool) {left right : ValueType}
    (leftReference : left.isReference = true)
    (rightReference : right.isReference = true) :
    (mergeTypes seeded (some left) (some right) : Query hierarchy _) =
      join left right := by
  have leftOther : left ≠ .top ∧ left ≠ .int := by
    constructor <;> rintro rfl <;> cases leftReference
  have rightOther : right ≠ .top := by
    rintro rfl
    cases rightReference
  simp [mergeTypes, leftOther, rightOther]

/-- Plain types meet at a plain type. -/
theorem exists_mergeTypes (wellFormed : hierarchy.WellFormed)
    (rootResolves : hierarchy.Resolves .object) (seeded : Bool) {left right : ValueType}
    (leftPlain : hierarchy.IsPlain left) (rightPlain : hierarchy.IsPlain right) :
    ∃ joined, (mergeTypes seeded (some left) (some right) : Query hierarchy _).eval =
        .ok (some joined) ∧
      IsJoin hierarchy.SubType hierarchy.ValueOfClass left right joined ∧
      hierarchy.IsPlain joined := by
  rw [mergeTypes_of_isReference seeded leftPlain.isReference rightPlain.isReference]
  rcases exists_join wellFormed leftPlain.resolves rightPlain.resolves with
    ⟨_, answered, isJoined⟩
  cases isJoined with
  | nothing apart =>
      have notAbove := apart .anyObject (subType_anyObject leftPlain.isReference)
      exact absurd (subType_anyObject rightPlain.isReference) notAbove
  | type isJoin =>
      refine ⟨_, answered, isJoin, ?_⟩
      rcases ValueType.eq_null_or_reference leftPlain.isReference with
        rfl | ⟨leftType, rfl⟩
      · rw [isJoin.eq_right (null_subType rightPlain.isReference)]
        exact rightPlain
      · have ofClass := isJoin.plain_of_plain leftPlain.ofClass rightPlain.ofClass
        rcases subType_reference_iff.mp isJoin.left_below with ⟨type, rfl, below⟩
        exact ⟨rfl, ofClass, below.resolves rootResolves leftPlain.resolves⟩

/-- Paths meet at the least type above all of theirs. -/
theorem exists_mergePaths (wellFormed : hierarchy.WellFormed)
    (rootResolves : hierarchy.Resolves .object) (seeded : Bool)
    {members rest : List ValueType} {first : ValueType}
    (isBound : IsBound hierarchy.SubType hierarchy.ValueOfClass members first)
    (firstPlain : hierarchy.IsPlain first)
    (restPlain : ∀ type ∈ rest, hierarchy.IsPlain type) :
    ∃ merged, (mergePaths seeded first rest : Query hierarchy _).eval =
      .ok (some merged) ∧
      IsBound hierarchy.SubType hierarchy.ValueOfClass (members ++ rest) merged := by
  induction rest generalizing first members with
  | nil =>
      rw [List.append_nil]
      exact ⟨first, rfl, isBound⟩
  | cons next rest ih =>
      have nextPlain := restPlain next (List.mem_cons_self ..)
      rcases exists_mergeTypes wellFormed rootResolves seeded firstPlain nextPlain with
        ⟨joined, answered, isJoin, joinedPlain⟩
      have joinedBound := isBound.join nextPlain.ofClass isJoin
        wellFormed.rooted.subType_trans
      rcases ih joinedBound joinedPlain fun type member =>
        restPlain type (List.mem_cons_of_mem _ member) with ⟨merged, mergedRest, isLeast⟩
      rw [List.append_assoc, List.singleton_append] at isLeast
      exact ⟨merged, (eval_bind_of_ok answered).trans mergedRest, isLeast⟩

/-- Among types that are not made of interfaces, the order of the paths does not
matter. -/
theorem exists_mergePaths_perm (wellFormed : hierarchy.WellFormed)
    (rootResolves : hierarchy.Resolves .object) (seeded otherSeeded : Bool)
    {first otherFirst : ValueType} {rest otherRest : List ValueType}
    (perm : (first :: rest).Perm (otherFirst :: otherRest))
    (arePlain : ∀ type ∈ first :: rest, hierarchy.IsPlain type) :
    ∃ merged, (mergePaths seeded first rest : Query hierarchy _).eval =
      .ok (some merged) ∧
      (mergePaths otherSeeded otherFirst otherRest : Query hierarchy _).eval =
        .ok (some merged) := by
  have meet (seeded : Bool) (first : ValueType) (rest : List ValueType)
      (arePlain : ∀ type ∈ first :: rest, hierarchy.IsPlain type) :
      ∃ merged, (mergePaths seeded first rest : Query hierarchy _).eval =
        .ok (some merged) ∧
        IsBound hierarchy.SubType hierarchy.ValueOfClass (first :: rest) merged := by
    have firstPlain := arePlain first (List.mem_cons_self ..)
    exact exists_mergePaths wellFormed rootResolves seeded
      (.singleton .refl firstPlain.ofClass) firstPlain
      fun type member => arePlain type (List.mem_cons_of_mem _ member)
  rcases meet seeded first rest arePlain with ⟨merged, answered, isBound⟩
  rcases meet otherSeeded otherFirst otherRest fun type member =>
    arePlain type (perm.mem_iff.mpr member) with ⟨other, otherAnswered, isOther⟩
  rw [← isBound.eq_of_perm isOther perm wellFormed.subType_antisymm] at otherAnswered
  exact ⟨merged, answered, otherAnswered⟩

/-- Nested joins succeed, and they agree unless an outer type is above both others but not
above their join, which takes an interface.  Without interfaces, any number of paths meet
at the same type in every order. -/
theorem nested_joins_agree_iff (wellFormed : hierarchy.WellFormed)
    (rootResolves : hierarchy.Resolves .object) :
    (∀ first middle last : RefType, (∀ name ∈ first.className?, hierarchy.Resolves name) →
      (∀ name ∈ middle.className?, hierarchy.Resolves name) →
      (∀ name ∈ last.className?, hierarchy.Resolves name) →
      ∃ early late left right,
        (commonRefType first middle : Query hierarchy RefType).eval = .ok early ∧
        (commonRefType middle last : Query hierarchy RefType).eval = .ok late ∧
        (joinEarly first middle last : Query hierarchy RefType).eval = .ok left ∧
        (joinLate first middle last : Query hierarchy RefType).eval = .ok right ∧
        (left = right ↔
          (hierarchy.SubRef first last → hierarchy.SubRef middle last →
            hierarchy.SubRef early last) ∧
          (hierarchy.SubRef middle first → hierarchy.SubRef last first →
            hierarchy.SubRef late first)) ∧
        (hierarchy.OfClass first → hierarchy.OfClass last → left = right)) ∧
    ∀ (seeded otherSeeded : Bool) (first otherFirst : ValueType)
      (rest otherRest : List ValueType),
      (first :: rest).Perm (otherFirst :: otherRest) →
      (∀ type ∈ first :: rest, hierarchy.IsPlain type) →
      ∃ merged, (mergePaths seeded first rest : Query hierarchy _).eval =
        .ok (some merged) ∧
        (mergePaths otherSeeded otherFirst otherRest : Query hierarchy _).eval =
          .ok (some merged) := by
  constructor
  · intro first middle last firstResolves middleResolves lastResolves
    rcases exists_commonRefType wellFormed firstResolves middleResolves with
      ⟨early, earlyAnswered, earlyJoin⟩
    rcases exists_commonRefType wellFormed middleResolves lastResolves with
      ⟨late, lateAnswered, lateJoin⟩
    have earlyResolves := earlyJoin.left_below.resolves rootResolves firstResolves
    have lateResolves := lateJoin.left_below.resolves rootResolves middleResolves
    rcases exists_commonRefType wellFormed earlyResolves lastResolves with
      ⟨left, leftAnswered, leftJoin⟩
    rcases exists_commonRefType wellFormed firstResolves lateResolves with
      ⟨right, rightAnswered, rightJoin⟩
    have agree := earlyJoin.nested_eq_iff leftJoin lateJoin rightJoin
      wellFormed.rooted.subRef_trans wellFormed.subRef_antisymm
    refine ⟨early, late, left, right, earlyAnswered, lateAnswered,
      (eval_bind_of_ok earlyAnswered).trans leftAnswered,
      (eval_bind_of_ok lateAnswered).trans rightAnswered, agree, ?_⟩
    intro firstOfClass lastOfClass
    exact agree.mpr ⟨earlyJoin.least last lastOfClass, lateJoin.least first firstOfClass⟩
  · intro seeded otherSeeded first otherFirst rest otherRest perm arePlain
    exact exists_mergePaths_perm wellFormed rootResolves seeded otherSeeded perm arePlain

theorem sharing_nested_joins_agree :
    (sharing true).WellFormed ∧ (sharing true).Resolves .object ∧
    (∀ name ∈ texts.className?, (sharing true).Resolves name) ∧
    (∀ name ∈ builders.className?, (sharing true).Resolves name) ∧
    (∃ joined, (joinEarly texts (.object .object) builders :
      Query (sharing true) _).eval =
        .ok joined ∧
      (joinLate texts (.object .object) builders : Query (sharing true) _).eval =
        .ok joined) ∧
    (∀ type ∈ [.reference texts, .null, .reference builders],
      (sharing true).IsPlain type) ∧
    ∃ merged, (mergePaths true (.reference texts) [.null, .reference builders] :
        Query (sharing true) _).eval = .ok (some merged) ∧
      (mergePaths false (.reference builders) [.reference texts, .null] :
        Query (sharing true) _).eval = .ok (some merged) := by
  have rootResolves := (closed_sharing true).resolves find?_sharing_object
  have textsPlain := (closed_sharing true).isPlain_array find?_sharing_string rfl 0
  have buildersPlain := (closed_sharing true).isPlain_array find?_sharing_builder rfl 0
  have arePlain : ∀ type ∈ [.reference texts, .null, .reference builders],
      (sharing true).IsPlain type := by
    simpa using ⟨textsPlain, ⟨rfl, nofun, nofun⟩, buildersPlain⟩
  have ⟨nested, paths⟩ := nested_joins_agree_iff wellFormed_sharing rootResolves
  have rootsResolve : ∀ name ∈ (RefType.object .object).className?,
      (sharing true).Resolves name := by
    rintro _ ⟨⟩
    exact rootResolves
  rcases nested texts (.object .object) builders textsPlain.resolves rootsResolve
    buildersPlain.resolves with ⟨_, _, left, right, _, _, isLeft, isRight, _, agree⟩
  rw [← agree textsPlain.ofClass buildersPlain.ofClass] at isRight
  have reordered : [ValueType.reference texts, .null, .reference builders].Perm
      [.reference builders, .reference texts, .null] := by
    decide
  exact ⟨wellFormed_sharing, rootResolves, textsPlain.resolves, buildersPlain.resolves,
    ⟨left, isLeft, isRight⟩, arePlain, paths true false _ _ _ _ reordered arePlain⟩

end Query

namespace Hierarchy

/-! ## Orders that matter -/

variable {hierarchy : Hierarchy}

theorem Layered.of_classes (acyclic : hierarchy.Acyclic)
    (areClasses : ∀ name, hierarchy.IsClass name) : hierarchy.Layered where
  acyclic := acyclic
  isClass_superclass := fun _ _ => areClasses _
  superclass_interface := by
    intro name data found isInterface
    cases isInterface.symm.trans (areClasses name data found)
  isInterface_extended := by
    intro name data interface found isInterface
    cases isInterface.symm.trans (areClasses name data found)

theorem layered_pair {below above : BinaryName} (differ : below ≠ above) :
    (pair below above).Layered := by
  apply Layered.of_classes (acyclic_pair differ)
  intro name data found
  rcases exists_tier_of_find? found with ⟨tier, inTiers, inTier, _⟩
  rw [List.mem_singleton.mp inTiers] at inTier
  rcases List.mem_cons.mp inTier with rfl | inTier
  · rfl
  · rw [List.mem_singleton.mp inTier]

theorem closed_pair {below above : BinaryName} (differ : below ≠ above) :
    (pair below above).Closed := by
  intro name data superclass found member
  rw [(extends_pair ⟨data, found, member⟩).2]
  exact ⟨⟨above, none, [], false⟩, by simp [pair, find?, locate?, Tier.find?, differ]⟩

variable {isInterface : Bool}

/-- Only the root class and the shared supertype are above other classes. -/
theorem not_subclass_sharing {lower upper : BinaryName} (differ : upper ≠ lower)
    (notRoot : upper ≠ .object) (notShared : upper ≠ Platform.charSequence) :
    ¬(sharing isInterface).Subclass lower upper := by
  rintro (isRoot | chain)
  · exact notRoot isRoot
  · rcases chain.cases_tail with same | ⟨_, _, data, found, member⟩
    · exact differ same
    · rcases mem_supertypes_sharing found member with ⟨isRoot, _⟩ | ⟨isShared, _⟩
      · exact notRoot isRoot
      · exact notShared isShared

theorem string_subclass_sharing :
    (sharing isInterface).Subclass .string Platform.charSequence :=
  .inr (.single ⟨_, find?_sharing_string, by simp [ClassData.supertypes]⟩)

theorem builder_subclass_sharing :
    (sharing isInterface).Subclass Platform.abstractStringBuilder Platform.charSequence :=
  .inr (.single ⟨_, find?_sharing_builder, by simp [ClassData.supertypes]⟩)

end Hierarchy

namespace Query

open Hierarchy

variable {hierarchy : Hierarchy} {isInterface : Bool}

theorem eval_commonRefType_object {left right joined : BinaryName} (differ : left ≠ right)
    (answered : (commonSuperclass left right : Query hierarchy BinaryName).eval =
      .ok joined) :
    (commonRefType (.object left) (.object right) : Query hierarchy RefType).eval =
      .ok (.object joined) := by
  rw [commonRefType, if_neg (by simpa using differ)]
  exact eval_bind_of_ok answered

theorem eval_mergeTypes_object (seeded : Bool) {left right joined : BinaryName}
    (differ : left ≠ right)
    (answered : (commonSuperclass left right : Query hierarchy BinaryName).eval =
      .ok joined) :
    (mergeTypes seeded (some (.object left)) (some (.object right)) :
      Query hierarchy _).eval =
      .ok (some (.object joined)) := by
  rw [mergeTypes_of_isReference seeded rfl rfl]
  unfold join ValueType.object
  rw [if_neg (by simpa using differ)]
  exact eval_bind_of_ok (eval_commonRefType_object differ answered)

section Sharing

variable (isInterface : Bool)

theorem commonSuperclass_sharing_object :
    (commonSuperclass .object Platform.charSequence :
      Query (sharing isInterface) BinaryName).eval = .ok .object := by
  apply eval_commonSuperclass_of_above
  · exact (closed_sharing isInterface).resolves find?_sharing_object
  · exact (closed_sharing isInterface).resolves find?_sharing_charSequence
  · intro below
    have isRoot := (rooted_sharing isInterface).eq_object below
    revert isRoot
    decide
  · exact .inl rfl

/-- Classes that share a supertype among their interfaces meet at the root class. -/
theorem commonSuperclass_sharing :
    (commonSuperclass .string Platform.abstractStringBuilder :
      Query (sharing isInterface) BinaryName).eval = .ok .object := by
  have textResolves := (closed_sharing isInterface).resolves find?_sharing_string
  have builderResolves := (closed_sharing isInterface).resolves find?_sharing_builder
  rw [eval_commonSuperclass_of_incomparable textResolves builderResolves
    find?_sharing_string find?_sharing_builder]
  · rw [Bool.or_self, if_neg Bool.false_ne_true, climb,
      eval_demand_of_found find?_sharing_string]
    rfl
  · exact not_subclass_sharing (by decide) (by decide) (by decide)
  · exact not_subclass_sharing (by decide) (by decide) (by decide)

theorem joinEarly_sharing :
    (joinEarly (.object .string) (.object Platform.abstractStringBuilder)
      (.object Platform.charSequence) : Query (sharing isInterface) RefType).eval =
        .ok (.object .object) := by
  have joined := eval_commonRefType_object (by decide)
    (commonSuperclass_sharing isInterface)
  apply (eval_bind_of_ok joined).trans
  exact eval_commonRefType_object (by decide)
    (commonSuperclass_sharing_object isInterface)

theorem joinLate_sharing :
    (joinLate (.object .string) (.object Platform.abstractStringBuilder)
      (.object Platform.charSequence) : Query (sharing isInterface) RefType).eval =
        .ok (.object Platform.charSequence) := by
  have textResolves := (closed_sharing isInterface).resolves find?_sharing_string
  have builderResolves := (closed_sharing isInterface).resolves find?_sharing_builder
  have joined := eval_commonRefType_object (by decide)
    (eval_commonSuperclass_of_below builderResolves builder_subclass_sharing)
  apply (eval_bind_of_ok joined).trans
  exact eval_commonRefType_object (by decide)
    (eval_commonSuperclass_of_below textResolves string_subclass_sharing)

theorem mergePaths_sharing :
    (mergePaths false (.object .string) [.object Platform.abstractStringBuilder,
      .object Platform.charSequence] : Query (sharing isInterface) _).eval =
        .ok (some .anyObject) ∧
    (mergePaths false (.object Platform.abstractStringBuilder)
      [.object Platform.charSequence,
      .object .string] : Query (sharing isInterface) _).eval =
        .ok (some (.object Platform.charSequence)) := by
  have textResolves := (closed_sharing isInterface).resolves find?_sharing_string
  have builderResolves := (closed_sharing isInterface).resolves find?_sharing_builder
  have sharedResolves := (closed_sharing isInterface).resolves find?_sharing_charSequence
  constructor
  · have merged := eval_mergeTypes_object false (by decide)
      (commonSuperclass_sharing isInterface)
    apply (eval_bind_of_ok merged).trans
    exact (eval_bind_of_ok (eval_mergeTypes_object false (by decide)
      (commonSuperclass_sharing_object isInterface)))
  · have merged := eval_mergeTypes_object false (by decide)
      (eval_commonSuperclass_of_below builderResolves builder_subclass_sharing)
    apply (eval_bind_of_ok merged).trans
    apply eval_bind_of_ok (eval_mergeTypes_object false (by decide) _)
    exact eval_commonSuperclass_of_above sharedResolves textResolves
      (not_subclass_sharing (by decide) (by decide) (by decide)) string_subclass_sharing

end Sharing

/-- Classes that share a supertype among their interfaces meet at the root class, but each
of them meets that supertype where it is.  If it is not an interface, or if the root class
has a superclass, joins depend on their order even without interfaces. -/
theorem nested_joins_disagree :
    ((sharing true).WellFormed ∧ (sharing true).Closed ∧
      (joinEarly (.object .string) (.object Platform.abstractStringBuilder)
        (.object Platform.charSequence) : Query (sharing true) _).eval =
          .ok (.object .object) ∧
      (joinLate (.object .string) (.object Platform.abstractStringBuilder)
        (.object Platform.charSequence) : Query (sharing true) _).eval =
          .ok (.object Platform.charSequence) ∧
      (mergePaths false (.object .string) [.object Platform.abstractStringBuilder,
        .object Platform.charSequence] : Query (sharing true) _).eval =
          .ok (some .anyObject) ∧
      (mergePaths false (.object Platform.abstractStringBuilder)
        [.object Platform.charSequence, .object .string] : Query (sharing true) _).eval =
          .ok (some (.object Platform.charSequence))) ∧
    ((sharing false).Layered ∧ (sharing false).Closed ∧
      (joinEarly (.object .string) (.object Platform.abstractStringBuilder)
        (.object Platform.charSequence) : Query (sharing false) _).eval =
          .ok (.object .object) ∧
      (joinLate (.object .string) (.object Platform.abstractStringBuilder)
        (.object Platform.charSequence) : Query (sharing false) _).eval =
          .ok (.object Platform.charSequence)) ∧
    (pair .object .throwable).Layered ∧ (pair .object .throwable).Closed ∧
      (joinEarly (.primitiveArray 0 .int) (.object .object) (.object .throwable) :
        Query (pair .object .throwable) _).eval = .ok (.object .throwable) ∧
      (joinLate (.primitiveArray 0 .int) (.object .object) (.object .throwable) :
        Query (pair .object .throwable) _).eval = .ok (.object .object) := by
  have differ : BinaryName.object ≠ .throwable := by decide
  have raised : (commonRefType (.object .object) (.object .throwable) :
      Query (pair .object .throwable) RefType).eval = .ok (.object .throwable) :=
    eval_commonRefType_object differ (inverts_pair differ.symm).backward
  exact ⟨⟨wellFormed_sharing, closed_sharing true, joinEarly_sharing true,
      joinLate_sharing true, mergePaths_sharing true⟩,
    ⟨layered_sharing false, closed_sharing false, joinEarly_sharing false,
      joinLate_sharing false⟩,
    layered_pair differ, closed_pair differ, (eval_bind_of_ok rfl).trans raised,
    (eval_bind_of_ok raised).trans rfl⟩

end Query

end LocalTable
