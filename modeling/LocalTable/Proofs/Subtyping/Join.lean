import LocalTable.Proofs.Frame.Height
import LocalTable.Proofs.Subtyping.Search

/-!
# Joins of classes

Where classes and interfaces are kept apart, the superclasses of a class form a chain,
and the root class is the only class above an interface.  So the first superclass of a
class that is above another one is the least class above both, whichever of the two the
climb starts from.  Interfaces are left out: two classes may share several of them, of
which none is the least.
-/

namespace LocalTable

/-! ## Joins in an order -/

/-- An element above two others: the larger one of them, if they can be compared, and the
least plain element above both, if not. -/
structure IsJoin {α : Type} (below : α → α → Prop) (plain : α → Prop)
    (left right joined : α) : Prop where
  left_below : below left joined
  right_below : below right joined
  eq_right : below left right → joined = right
  eq_left : below right left → joined = left
  least : ∀ upper, plain upper → below left upper → below right upper → below joined upper
  comparable_or_plain : below left right ∨ below right left ∨ plain joined

namespace IsJoin

variable {α β : Type} {below : α → α → Prop} {plain : α → Prop}
  {left right joined other : α}

theorem symm (join : IsJoin below plain left right joined) :
    IsJoin below plain right left joined where
  left_below := join.right_below
  right_below := join.left_below
  eq_right := join.eq_left
  eq_left := join.eq_right
  least := by
    intro upper isPlain rightBelow leftBelow
    exact join.least upper isPlain leftBelow rightBelow
  comparable_or_plain := by
    rcases join.comparable_or_plain with ascends | descends | isPlain
    · exact .inr (.inl ascends)
    · exact .inl descends
    · exact .inr (.inr isPlain)

/-- The larger one of two elements is their join. -/
theorem of_below (refl : ∀ element, below element element)
    (antisymm : ∀ {first second}, below first second → below second first →
      first = second)
    (ascends : below left right) : IsJoin below plain left right right where
  left_below := ascends
  right_below := refl right
  eq_right := fun _ => rfl
  eq_left := fun descends => antisymm descends ascends
  least := fun _ _ _ rightBelow => rightBelow
  comparable_or_plain := .inl ascends

/-- A plain element that is least among all above two others is their join. -/
theorem of_least (refl : ∀ element, below element element)
    (antisymm : ∀ {first second}, below first second → below second first →
      first = second)
    (leftBelow : below left joined) (rightBelow : below right joined)
    (isPlain : plain joined) (least : ∀ upper, below left upper → below right upper →
      below joined upper) :
    IsJoin below plain left right joined where
  left_below := leftBelow
  right_below := rightBelow
  eq_right := fun ascends => antisymm (least right ascends (refl right)) rightBelow
  eq_left := fun descends => antisymm (least left (refl left) descends) leftBelow
  least := fun upper _ => least upper
  comparable_or_plain := .inr (.inr isPlain)

/-- Where two elements cannot be compared, the least plain element above both is their
join. -/
theorem of_incomparable (notAscending : ¬below left right)
    (notDescending : ¬below right left) (leftBelow : below left joined)
    (rightBelow : below right joined) (isPlain : plain joined)
    (least : ∀ upper, plain upper → below left upper → below right upper →
      below joined upper) :
    IsJoin below plain left right joined where
  left_below := leftBelow
  right_below := rightBelow
  eq_right := fun ascends => absurd ascends notAscending
  eq_left := fun descends => absurd descends notDescending
  least := least
  comparable_or_plain := .inr (.inr isPlain)

theorem unique
    (antisymm : ∀ {first second}, below first second → below second first →
      first = second)
    (join : IsJoin below plain left right joined)
    (isOther : IsJoin below plain left right other) :
    joined = other := by
  rcases join.comparable_or_plain with ascends | descends | isPlain
  · rw [join.eq_right ascends, isOther.eq_right ascends]
  · rw [join.eq_left descends, isOther.eq_left descends]
  · rcases isOther.comparable_or_plain with ascends | descends | otherPlain
    · rw [join.eq_right ascends, isOther.eq_right ascends]
    · rw [join.eq_left descends, isOther.eq_left descends]
    · apply antisymm
      · exact join.least other otherPlain isOther.left_below isOther.right_below
      · exact isOther.least joined isPlain join.left_below join.right_below

/-- Joins carry over to a larger order in which an upper bound from outside is above
everything that carries over. -/
theorem map {widerBelow : β → β → Prop} {widerPlain : β → Prop} {embed : α → β}
    (join : IsJoin below plain left right joined)
    (below_iff : ∀ {lower upper}, widerBelow (embed lower) (embed upper) ↔
      below lower upper)
    (plain_iff : ∀ {element}, widerPlain (embed element) ↔ plain element)
    (outside : ∀ upper, widerBelow (embed left) upper →
      (∃ element, upper = embed element) ∨ ∀ element, widerBelow (embed element) upper) :
    IsJoin widerBelow widerPlain (embed left) (embed right) (embed joined) where
  left_below := below_iff.mpr join.left_below
  right_below := below_iff.mpr join.right_below
  eq_right := fun ascends => congrArg embed (join.eq_right (below_iff.mp ascends))
  eq_left := fun descends => congrArg embed (join.eq_left (below_iff.mp descends))
  least := by
    intro upper isPlain leftBelow rightBelow
    rcases outside upper leftBelow with ⟨element, rfl⟩ | aboveAll
    · apply below_iff.mpr
      exact join.least element (plain_iff.mp isPlain) (below_iff.mp leftBelow)
        (below_iff.mp rightBelow)
    · exact aboveAll joined
  comparable_or_plain := by
    rw [below_iff, below_iff, plain_iff]
    exact join.comparable_or_plain

end IsJoin

/-! ## Classes -/

namespace Hierarchy

/-- If the name is defined, it is not that of an interface. -/
def IsClass (hierarchy : Hierarchy) (name : BinaryName) : Prop :=
  ∀ data, hierarchy.find? name = some data → data.isInterface = false

/-- If the name is defined, it is that of an interface. -/
def IsInterface (hierarchy : Hierarchy) (name : BinaryName) : Prop :=
  ∀ data, hierarchy.find? name = some data → data.isInterface = true

/-- Supertypes run in no circle, and superclasses are no interfaces; interfaces extend
interfaces, with the root class for their superclass. -/
structure Layered (hierarchy : Hierarchy) : Prop where
  acyclic : hierarchy.Acyclic
  isClass_superclass : ∀ {name data superclass}, hierarchy.find? name = some data →
    data.superclass = some superclass → hierarchy.IsClass superclass
  superclass_interface : ∀ {name data}, hierarchy.find? name = some data →
    data.isInterface = true → data.superclass = some .object
  isInterface_extended : ∀ {name data interface}, hierarchy.find? name = some data →
    data.isInterface = true → interface ∈ data.interfaces →
      hierarchy.IsInterface interface

/-- What is more, the root class has no supertypes, and classes list only interfaces as
such. -/
structure WellFormed (hierarchy : Hierarchy) : Prop extends hierarchy.Layered where
  rooted : hierarchy.Rooted
  isInterface_implemented : ∀ {name data interface}, hierarchy.find? name = some data →
    data.isInterface = false → interface ∈ data.interfaces →
      hierarchy.IsInterface interface

namespace WellFormed

variable {hierarchy : Hierarchy} {name above left right : BinaryName} {data : ClassData}

theorem isInterface_interfaces (wellFormed : hierarchy.WellFormed)
    {interface : BinaryName} (found : hierarchy.find? name = some data)
    (isListed : interface ∈ data.interfaces) :
    hierarchy.IsInterface interface := by
  cases isInterface : data.isInterface with
  | false => exact wellFormed.isInterface_implemented found isInterface isListed
  | true => exact wellFormed.isInterface_extended found isInterface isListed

theorem subclass_antisymm (wellFormed : hierarchy.WellFormed)
    (first : hierarchy.Subclass left right) (second : hierarchy.Subclass right left) :
    left = right :=
  Hierarchy.subclass_antisymm wellFormed.acyclic wellFormed.rooted first second

theorem isClass_object (wellFormed : hierarchy.WellFormed) :
    hierarchy.IsClass .object := by
  intro data found
  cases isInterface : data.isInterface with
  | false => rfl
  | true =>
      have alone := wellFormed.rooted data found
      simp [ClassData.supertypes,
        wellFormed.superclass_interface found isInterface] at alone

/-- Only interfaces and the root class are above an interface. -/
theorem above_interface (wellFormed : hierarchy.WellFormed)
    (isInterface : hierarchy.IsInterface name)
    (chain : Relation.ReflTransGen hierarchy.Extends name above) :
    above = .object ∨ hierarchy.IsInterface above := by
  induction chain with
  | refl => exact .inr isInterface
  | tail _ isExtended ih =>
      rcases isExtended with ⟨data, found, member⟩
      rcases ih with rfl | isInterface
      · rw [wellFormed.rooted data found] at member
        cases member
      · have onRoot := wellFormed.superclass_interface found (isInterface data found)
        rw [ClassData.supertypes, onRoot] at member
        rcases List.mem_append.mp member with isSuperclass | isListed
        · exact .inl (List.mem_singleton.mp isSuperclass)
        · exact .inr (wellFormed.isInterface_interfaces found isListed)

theorem eq_object_of_interface (wellFormed : hierarchy.WellFormed)
    (resolves : hierarchy.Resolves name) (isInterface : hierarchy.IsInterface name)
    (below : hierarchy.Subclass name above)
    (isClass : hierarchy.IsClass above) : above = .object := by
  rcases below with isRoot | chain
  · exact isRoot
  · rcases wellFormed.above_interface isInterface chain with isRoot | aboveInterface
    · exact isRoot
    · rcases resolves above chain with ⟨data, found⟩
      cases (aboveInterface data found).symm.trans (isClass data found)

/-- Other classes above a class are above its superclass, or above the root class if it
has none. -/
theorem superclass_below (wellFormed : hierarchy.WellFormed)
    (resolves : hierarchy.Resolves name) (found : hierarchy.find? name = some data)
    (isClass : hierarchy.IsClass above) (differ : above ≠ name)
    (below : hierarchy.Subclass name above) :
    hierarchy.Subclass (data.superclass.getD .object) above := by
  rcases below with isRoot | chain
  · exact .inl isRoot
  · rcases chain.cases_head with same | ⟨next, isExtended, rest⟩
    · exact absurd same.symm differ
    · have nextResolves := resolves.of_chain (.single isExtended)
      rcases isExtended with ⟨other, otherFound, member⟩
      cases found.symm.trans otherFound
      rcases List.mem_append.mp member with isSuperclass | isListed
      · rw [Option.mem_toList.mp isSuperclass]
        exact .inr rest
      · have isInterface := wellFormed.isInterface_interfaces found isListed
        exact .inl (wellFormed.eq_object_of_interface nextResolves isInterface
          (.inr rest) isClass)

/-- An interface meets whatever it cannot be compared with at the root class. -/
theorem isJoin_interface (wellFormed : hierarchy.WellFormed)
    (resolves : hierarchy.Resolves left) (found : hierarchy.find? left = some data)
    (isInterface : data.isInterface = true)
    (notAscending : ¬hierarchy.Subclass left right)
    (notDescending : ¬hierarchy.Subclass right left) :
    IsJoin hierarchy.Subclass hierarchy.IsClass left right .object := by
  refine .of_incomparable notAscending notDescending (.inl rfl) (.inl rfl)
    wellFormed.isClass_object ?_
  intro upper isClass leftBelow _
  have leftInterface : hierarchy.IsInterface left := by
    intro other otherFound
    cases found.symm.trans otherFound
    exact isInterface
  rw [wellFormed.eq_object_of_interface resolves leftInterface leftBelow isClass]
  exact .refl _

end WellFormed

end Hierarchy

namespace Query

open Hierarchy

variable {hierarchy : Hierarchy}

theorem eval_isInterface {name : BinaryName} {data : ClassData}
    (found : hierarchy.find? name = some data) :
    (isInterface name : Query hierarchy Bool).eval = .ok data.isInterface := by
  have resolved : (resolve name : Query hierarchy ClassData).eval = .ok data :=
    eval_demand_of_found found
  exact eval_bind_of_ok resolved

/-- A climb ends at the least class above both.  The names that it has seen lead to
where it is, so it never comes back to one of them. -/
theorem exists_climb (wellFormed : hierarchy.WellFormed) {other current : BinaryName}
    {seen : List BinaryName} (otherResolves : hierarchy.Resolves other)
    (resolves : hierarchy.Resolves current)
    (behind : ∀ name ∈ seen, Relation.ReflTransGen hierarchy.Extends name current) :
    ∃ result, (climb other current seen : Query hierarchy BinaryName).eval = .ok result ∧
      hierarchy.IsClass result ∧
      ∀ above, hierarchy.IsClass above → above ≠ current →
        hierarchy.Subclass current above →
        hierarchy.Subclass other above → hierarchy.Subclass result above := by
  fun_induction climb other current seen with
  | case1 current seen ih =>
      rcases resolves current .refl with ⟨data, found⟩
      rw [eval_demand_of_found found]
      have onwards (above : BinaryName) (isClass : hierarchy.IsClass above) :=
        wellFormed.superclass_below resolves found isClass
      split
      next noSuperclass =>
        refine ⟨.object, rfl, wellFormed.isClass_object, ?_⟩
        intro above isClass differ below _
        simpa [noSuperclass] using onwards above isClass differ below
      next superclass isSuperclass =>
        rw [isSuperclass, Option.getD_some] at onwards
        have isExtended : hierarchy.Extends current superclass :=
          ⟨data, found, by simp [ClassData.supertypes, isSuperclass]⟩
        rcases eval_isSubclass otherResolves superclass with ⟨covers, tested, decides⟩
        change ∃ result, (isSubclass other superclass >>=
          _ : Query hierarchy _).eval = _ ∧ _
        rw [eval_bind_of_ok tested]
        cases covers with
        | true =>
            refine ⟨superclass, rfl, wellFormed.isClass_superclass found isSuperclass, ?_⟩
            intro above isClass differ below _
            exact onwards above isClass differ below
        | false =>
            dsimp only
            split
            next circular =>
              have circle := behind superclass (by simpa using circular)
              exact absurd (.tail' circle isExtended) (wellFormed.acyclic superclass)
            next isNew =>
              have reached : ∀ name ∈ [superclass] ++ seen,
                  Relation.ReflTransGen hierarchy.Extends name superclass := by
                intro name member
                rcases List.mem_append.mp member with isHere | wasSeen
                · rw [List.mem_singleton.mp isHere]
                · exact (behind name wasSeen).tail isExtended
              rcases ih data found superclass isSuperclass isNew
                (resolves.of_chain (.single isExtended)) reached with
                ⟨result, climbed, isClassResult, least⟩
              refine ⟨result, climbed, isClassResult, ?_⟩
              intro above isClass differ below otherBelow
              have isHigher : above ≠ superclass := by
                rintro rfl
                cases decides.mpr otherBelow
              exact least above isClass isHigher
                (onwards above isClass differ below) otherBelow

section CommonSuperclass

variable {left right : BinaryName}

theorem eval_commonSuperclass_of_below (leftResolves : hierarchy.Resolves left)
    (below : hierarchy.Subclass left right) :
    (commonSuperclass left right : Query hierarchy BinaryName).eval = .ok right :=
  eval_bind_of_ok (eval_isSubclass_of_below leftResolves below)

theorem eval_commonSuperclass_of_above (leftResolves : hierarchy.Resolves left)
    (rightResolves : hierarchy.Resolves right) (notBelow : ¬hierarchy.Subclass left right)
    (above : hierarchy.Subclass right left) :
    (commonSuperclass left right : Query hierarchy BinaryName).eval = .ok left := by
  unfold commonSuperclass
  rw [eval_bind_of_ok (eval_isSubclass_of_not_below leftResolves notBelow),
    if_neg Bool.false_ne_true]
  exact eval_bind_of_ok (eval_isSubclass_of_below rightResolves above)

theorem eval_commonSuperclass_of_incomparable (leftResolves : hierarchy.Resolves left)
    (rightResolves : hierarchy.Resolves right) {leftData rightData : ClassData}
    (leftFound : hierarchy.find? left = some leftData)
    (rightFound : hierarchy.find? right = some rightData)
    (notBelow : ¬hierarchy.Subclass left right)
    (notAbove : ¬hierarchy.Subclass right left) :
    (commonSuperclass left right : Query hierarchy BinaryName).eval =
      if leftData.isInterface || rightData.isInterface then .ok .object
      else (climb right left [] : Query hierarchy BinaryName).eval := by
  unfold commonSuperclass
  rw [eval_bind_of_ok (eval_isSubclass_of_not_below leftResolves notBelow),
    if_neg Bool.false_ne_true,
    eval_bind_of_ok (eval_isSubclass_of_not_below rightResolves notAbove),
    if_neg Bool.false_ne_true, eval_bind_of_ok (eval_isInterface leftFound)]
  cases leftData.isInterface with
  | true => rfl
  | false =>
      rw [if_neg Bool.false_ne_true, eval_bind_of_ok (eval_isInterface rightFound),
        Bool.false_or]
      split <;> rfl

/-- Objects meet at the larger one of their classes, or at the least class above both. -/
theorem exists_commonSuperclass (wellFormed : hierarchy.WellFormed)
    (leftResolves : hierarchy.Resolves left) (rightResolves : hierarchy.Resolves right) :
    ∃ joined, (commonSuperclass left right : Query hierarchy BinaryName).eval =
      .ok joined ∧
      IsJoin hierarchy.Subclass hierarchy.IsClass left right joined := by
  have larger {lower upper : BinaryName} (below : hierarchy.Subclass lower upper) :
      IsJoin hierarchy.Subclass hierarchy.IsClass lower upper upper :=
    .of_below .refl wellFormed.subclass_antisymm below
  by_cases below : hierarchy.Subclass left right
  · exact ⟨right, eval_commonSuperclass_of_below leftResolves below, larger below⟩
  by_cases above : hierarchy.Subclass right left
  · exact ⟨left, eval_commonSuperclass_of_above leftResolves rightResolves below above,
      (larger above).symm⟩
  rcases leftResolves left .refl with ⟨leftData, leftFound⟩
  rcases rightResolves right .refl with ⟨rightData, rightFound⟩
  rw [eval_commonSuperclass_of_incomparable leftResolves rightResolves leftFound
    rightFound below above]
  split
  next anyInterface =>
    refine ⟨.object, rfl, ?_⟩
    rcases Bool.or_eq_true_iff.mp anyInterface with leftInterface | rightInterface
    · exact wellFormed.isJoin_interface leftResolves leftFound leftInterface below above
    · exact (wellFormed.isJoin_interface rightResolves rightFound rightInterface
        above below).symm
  next =>
    rcases @exists_climb _ wellFormed _ _ [] rightResolves leftResolves nofun with
      ⟨joined, climbed, isClass, least⟩
    have ⟨leftBelow, rightBelow⟩ := subclass_of_climb climbed
    refine ⟨joined, climbed, .of_incomparable below above leftBelow rightBelow isClass ?_⟩
    intro upper upperClass leftUpper rightUpper
    have isHigher : upper ≠ left := by
      intro isLeft
      exact above (isLeft ▸ rightUpper)
    exact least upper upperClass isHigher leftUpper rightUpper

end CommonSuperclass

end Query

end LocalTable
