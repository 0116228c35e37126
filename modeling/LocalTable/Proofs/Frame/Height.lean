import Mathlib.Algebra.Group.Action.Defs
import Mathlib.Algebra.GroupWithZero.Nat
import Mathlib.Algebra.Order.BigOperators.Group.Finset
import Mathlib.Algebra.Order.BigOperators.Group.List
import Mathlib.Algebra.Order.Group.Nat
import LocalTable.Proofs.Frame.Limits

/-!
# Heights of frames

How far a frame can still go up.  A class is as high as there are classes above it, if
supertypes form no cycle and the root class has none.  An array is above no type with
fewer dimensions, null is below all references within a limit of dimensions, and a slot
or a cell can at last become unusable or unknown.  The height of a frame is the sum over
its slots and cells; a frame that goes up and changes loses height.
-/

namespace LocalTable

namespace Hierarchy

variable {hierarchy : Hierarchy}

/-- No class is among its own supertypes. -/
def Acyclic (hierarchy : Hierarchy) : Prop :=
  ∀ name, ¬Relation.TransGen hierarchy.Extends name name

/-! ## Classes -/

open Classical in
/-- The classes above a class: the root class, and those that its chains of supertypes
lead to. -/
noncomputable def above (hierarchy : Hierarchy) (name : BinaryName) : Finset BinaryName :=
  if name = .object then ∅
  else insert .object (hierarchy.mentioned.toFinset.filter
    (Relation.TransGen hierarchy.Extends name))

theorem mem_above {name other : BinaryName} :
    other ∈ hierarchy.above name ↔
      name ≠ .object ∧ (other = .object ∨
        Relation.TransGen hierarchy.Extends name other) := by
  unfold above
  split
  next isRoot => simp [isRoot]
  next notRoot =>
    simp only [Finset.mem_insert, Finset.mem_filter, List.mem_toFinset, ne_eq, notRoot,
      not_false_eq_true, true_and]
    exact or_congr_right (and_iff_right_of_imp mem_mentioned_of_chain)

/-- Number of classes above a class. -/
noncomputable def classHeight (hierarchy : Hierarchy) (name : BinaryName) : Nat :=
  (hierarchy.above name).card

theorem classHeight_le (hierarchy : Hierarchy) (name : BinaryName) :
    hierarchy.classHeight name ≤ hierarchy.mentioned.length + 1 := by
  have subset : hierarchy.above name ⊆ insert .object hierarchy.mentioned.toFinset := by
    intro other isAbove
    rcases (mem_above.mp isAbove).2 with rfl | chain
    · exact Finset.mem_insert_self ..
    · exact Finset.mem_insert_of_mem
        (List.mem_toFinset.mpr (mem_mentioned_of_chain chain))
  calc hierarchy.classHeight name
      ≤ (insert .object hierarchy.mentioned.toFinset).card := Finset.card_le_card subset
    _ ≤ hierarchy.mentioned.toFinset.card + 1 := Finset.card_insert_le ..
    _ ≤ hierarchy.mentioned.length + 1 := Nat.succ_le_succ (List.toFinset_card_le _)

section Grounded

variable (acyclic : hierarchy.Acyclic) (rooted : hierarchy.Rooted)

include acyclic rooted

theorem classHeight_lt {lower upper : BinaryName} (below : hierarchy.Subclass lower upper)
    (differ : lower ≠ upper) :
    hierarchy.classHeight upper < hierarchy.classHeight lower := by
  have notRoot : lower ≠ .object := by
    rintro rfl
    exact differ (rooted.eq_object below).symm
  have upwards : upper = .object ∨ Relation.TransGen hierarchy.Extends lower upper := by
    apply below.imp_right
    intro chain
    exact (Relation.reflTransGen_iff_eq_or_transGen.mp chain).resolve_left
      (Ne.symm differ)
  apply Finset.card_lt_card
  rw [Finset.ssubset_iff_of_subset]
  · refine ⟨upper, mem_above.mpr ⟨notRoot, upwards⟩, fun ownSuperclass => ?_⟩
    obtain ⟨upperNotRoot, isRoot | circle⟩ := mem_above.mp ownSuperclass
    · exact upperNotRoot isRoot
    · exact acyclic upper circle
  · intro other isAbove
    obtain ⟨upperNotRoot, further⟩ := mem_above.mp isAbove
    exact mem_above.mpr ⟨notRoot,
      further.imp_right (upwards.resolve_left upperNotRoot).trans⟩

theorem subclass_antisymm {left right : BinaryName}
    (first : hierarchy.Subclass left right) (second : hierarchy.Subclass right left) :
    left = right := by
  by_contra differ
  have higher := classHeight_lt acyclic rooted first differ
  have lower := classHeight_lt acyclic rooted second (Ne.symm differ)
  exact Nat.lt_asymm higher lower

end Grounded

/-! ## Types -/

/-- A number beyond the height of every class. -/
def layer (hierarchy : Hierarchy) : Nat :=
  hierarchy.mentioned.length + 2

/-- The height of a reference type: that of its class, in a layer for its dimensions. -/
noncomputable def refHeight (hierarchy : Hierarchy) : RefType → Nat
  | .object name => hierarchy.classHeight name
  | .objectArray extra element =>
    (extra + 1) * hierarchy.layer + hierarchy.classHeight element
  | .primitiveArray extra _ => (extra + 1) * hierarchy.layer

theorem le_refHeight (hierarchy : Hierarchy) (type : RefType) :
    type.dimensions * hierarchy.layer ≤ hierarchy.refHeight type := by
  cases type with
  | object name => simp [RefType.dimensions]
  | objectArray extra element => exact Nat.le_add_right ..
  | primitiveArray extra element => exact Nat.le_refl _

theorem refHeight_lt_layer (hierarchy : Hierarchy) (type : RefType) :
    hierarchy.refHeight type < (type.dimensions + 1) * hierarchy.layer := by
  have inLayer (name : BinaryName) : hierarchy.classHeight name < hierarchy.layer :=
    Nat.lt_succ_of_le (hierarchy.classHeight_le name)
  rw [Nat.succ_mul]
  cases type with
  | object name =>
      rw [RefType.dimensions, Nat.zero_mul, Nat.zero_add]
      exact inLayer name
  | objectArray extra element => exact Nat.add_lt_add_left (inLayer element) _
  | primitiveArray extra element => exact Nat.lt_add_of_pos_right (Nat.succ_pos _)

/-- The height of a type, if arrays have at most the given dimensions. -/
noncomputable def typeHeight (hierarchy : Hierarchy) (depth : Nat) : ValueType → Nat
  | .boolean => 2
  | .byte | .char | .short => 1
  | .null => (depth + 1) * hierarchy.layer
  | .reference type => hierarchy.refHeight type
  | _ => 0

/-- The height of what is known of a slot or a cell. -/
noncomputable def placeHeight (hierarchy : Hierarchy) (depth : Nat) :
    Option ValueType → Nat
  | none => 0
  | some .top => 1
  | some type => hierarchy.typeHeight depth type + 2

/-- The most that the height of a place can be. -/
def placeBound (hierarchy : Hierarchy) (depth : Nat) : Nat :=
  (depth + 1) * hierarchy.layer + 4

theorem placeHeight_le {depth : Nat} {held : Option ValueType}
    (shallow : depthOf held ≤ depth) :
    hierarchy.placeHeight depth held ≤ hierarchy.placeBound depth := by
  cases held with
  | none => exact Nat.zero_le _
  | some type =>
      cases type with
      | reference type =>
          have bound := hierarchy.refHeight_lt_layer type
          have layers : (type.dimensions + 1) * hierarchy.layer ≤
              (depth + 1) * hierarchy.layer :=
            Nat.mul_le_mul_right _ (Nat.succ_le_succ shallow)
          simp only [placeHeight, typeHeight, placeBound]
          omega
      | _ =>
          simp only [placeHeight, typeHeight, placeBound]
          omega

section Grounded

variable (acyclic : hierarchy.Acyclic) (rooted : hierarchy.Rooted) {depth : Nat}

include acyclic rooted

theorem refHeight_lt {lower upper : RefType} (below : hierarchy.SubRef lower upper)
    (differ : lower ≠ upper) : hierarchy.refHeight upper < hierarchy.refHeight lower := by
  cases below with
  | refl => exact absurd rfl differ
  | object isSubclass =>
      exact classHeight_lt acyclic rooted isSubclass fun same => differ (congrArg _ same)
  | objectArray extra isSubclass =>
      apply Nat.add_lt_add_left
      exact classHeight_lt acyclic rooted isSubclass fun same => differ (congrArg _ same)
  | @shallower _ dimensions fewer =>
      calc hierarchy.refHeight (.ofDimensions .object dimensions)
          < (dimensions + 1) * hierarchy.layer := by
            have bound := hierarchy.refHeight_lt_layer (.ofDimensions .object dimensions)
            rwa [RefType.dimensions_ofDimensions] at bound
        _ ≤ lower.dimensions * hierarchy.layer := Nat.mul_le_mul_right _ fewer
        _ ≤ hierarchy.refHeight lower := hierarchy.le_refHeight lower

theorem typeHeight_lt {lower upper : ValueType} (below : hierarchy.SubType lower upper)
    (differ : lower ≠ upper) (shallow : depthOf (some upper) ≤ depth) :
    hierarchy.typeHeight depth upper < hierarchy.typeHeight depth lower := by
  cases below with
  | refl => exact absurd rfl differ
  | null type =>
      calc hierarchy.refHeight type
          < (type.dimensions + 1) * hierarchy.layer := hierarchy.refHeight_lt_layer type
        _ ≤ (depth + 1) * hierarchy.layer :=
          Nat.mul_le_mul_right _ (Nat.succ_le_succ shallow)
  | reference isSubtype =>
      exact refHeight_lt acyclic rooted isSubtype fun same => differ (congrArg _ same)
  | boolean isIntLike =>
      cases upper with
      | boolean => exact absurd rfl differ
      | byte | char | short | int => simp [typeHeight]
      | _ => cases isIntLike
  | int isIntLike =>
      cases lower with
      | int => exact absurd rfl differ
      | boolean | byte | char | short => simp [typeHeight]
      | _ => cases isIntLike

theorem subRef_antisymm {left right : RefType} (first : hierarchy.SubRef left right)
    (second : hierarchy.SubRef right left) : left = right := by
  by_contra differ
  have higher := refHeight_lt acyclic rooted first differ
  have lower := refHeight_lt acyclic rooted second (Ne.symm differ)
  exact Nat.lt_asymm higher lower

theorem subType_antisymm {left right : ValueType} (first : hierarchy.SubType left right)
    (second : hierarchy.SubType right left) : left = right := by
  by_contra differ
  have higher := typeHeight_lt acyclic rooted first differ
    (Nat.le_max_right (depthOf (some left)) (depthOf (some right)))
  have lower := typeHeight_lt acyclic rooted second (Ne.symm differ)
    (Nat.le_max_left (depthOf (some left)) (depthOf (some right)))
  exact Nat.lt_asymm higher lower

theorem placeHeight_lt {lower upper : Option ValueType}
    (below : hierarchy.SubKnown lower upper) (differ : lower ≠ upper)
    (shallow : depthOf upper ≤ depth) :
    hierarchy.placeHeight depth upper < hierarchy.placeHeight depth lower := by
  have known {type : ValueType} (notTop : type ≠ .top) :
      hierarchy.placeHeight depth (some type) = hierarchy.typeHeight depth type + 2 := by
    cases type <;> first | rfl | exact absurd rfl notTop
  cases below with
  | unknown =>
      cases lower with
      | none => exact absurd rfl differ
      | some type => cases type <;> exact Nat.succ_pos _
  | unusable type =>
      rw [known fun isTop => differ (congrArg some isTop)]
      exact Nat.le_add_left ..
  | @subType lower upper isSubtype =>
      have notSame : lower ≠ upper := fun same => differ (congrArg some same)
      have lowerKnown : lower ≠ .top := by
        rintro rfl
        cases isSubtype with
        | refl => exact notSame rfl
        | int isIntLike => cases isIntLike
      have upperKnown : upper ≠ .top := by
        rintro rfl
        cases isSubtype with
        | refl => exact notSame rfl
        | boolean isIntLike => cases isIntLike
      rw [known lowerKnown, known upperKnown]
      exact Nat.add_lt_add_right
        (typeHeight_lt acyclic rooted isSubtype notSame shallow) 2

end Grounded

/-! ## Frames -/

/-- The height of a cell, which can also lose its source. -/
noncomputable def cellHeight (hierarchy : Hierarchy) (depth : Nat) (cell : Cell) : Nat :=
  hierarchy.placeHeight depth cell.type + cell.source.isSome.toNat

/-- The height of a frame. -/
noncomputable def frameHeight (hierarchy : Hierarchy) (depth : Nat)
    (frame : Frame) : Nat :=
  (frame.locals.toList.map (hierarchy.placeHeight depth)).sum +
    (frame.stack.map (hierarchy.cellHeight depth)).sum

/-- The most that the height of a frame within limits can be. -/
def heightBound (hierarchy : Hierarchy) (limits : Frame.Limits) : Nat :=
  limits.maxLocals * hierarchy.placeBound limits.depth +
    limits.maxStack * (hierarchy.placeBound limits.depth + 1)

theorem frameHeight_le {frame : Frame} {limits : Frame.Limits}
    (fits : frame.Fits limits) :
    hierarchy.frameHeight limits.depth frame ≤ hierarchy.heightBound limits := by
  apply Nat.add_le_add
  · have places : ∀ height ∈ frame.locals.toList.map (hierarchy.placeHeight limits.depth),
        height ≤ hierarchy.placeBound limits.depth := by
      intro height member
      obtain ⟨held, isHeld, rfl⟩ := List.mem_map.mp member
      exact placeHeight_le (fits.shallow_of_mem isHeld)
    have bound := List.sum_le_card_nsmul _ _ places
    rwa [List.length_map, Array.length_toList, fits.size_eq, smul_eq_mul] at bound
  · have cells : ∀ height ∈ frame.stack.map (hierarchy.cellHeight limits.depth),
        height ≤ hierarchy.placeBound limits.depth + 1 := by
      intro height member
      obtain ⟨cell, isCell, rfl⟩ := List.mem_map.mp member
      exact Nat.add_le_add (placeHeight_le (fits.stack cell isCell)) (Bool.toNat_le _)
    have bound := List.sum_le_card_nsmul _ _ cells
    rw [List.length_map, smul_eq_mul] at bound
    exact Nat.le_trans bound (Nat.mul_le_mul_right _ fits.length_le)

/-- Where each item goes down or stays, the sum goes down unless all items stay. -/
theorem sum_map_lt {α : Type} {R : α → α → Prop} {height : α → Nat}
    {lowers uppers : List α} (related : List.Forall₂ R lowers uppers)
    (falls : ∀ lower, ∀ upper ∈ uppers, R lower upper → lower ≠ upper →
      height upper < height lower) :
    (uppers.map height).sum ≤ (lowers.map height).sum ∧
      (lowers ≠ uppers → (uppers.map height).sum < (lowers.map height).sum) := by
  induction related with
  | nil => exact ⟨Nat.le_refl _, fun differ => absurd rfl differ⟩
  | @cons lower upper lowers uppers head _ ih =>
      obtain ⟨le, lt⟩ := ih fun lower upper member =>
        falls lower upper (List.mem_cons_of_mem _ member)
      simp only [List.map_cons, List.sum_cons]
      by_cases same : lower = upper
      · subst same
        refine ⟨Nat.add_le_add_left le _, fun differ =>
          Nat.add_lt_add_left (lt fun same => ?_) _⟩
        exact differ (congrArg _ same)
      · have headFalls := falls lower upper (List.mem_cons_self ..) head same
        exact ⟨by omega, fun _ => by omega⟩

section Grounded

variable (acyclic : hierarchy.Acyclic) (rooted : hierarchy.Rooted)

include acyclic rooted

theorem cellHeight_lt {lower upper : Cell} {depth : Nat}
    (below : hierarchy.SubCell lower upper) (differ : lower ≠ upper)
    (shallow : depthOf upper.type ≤ depth) :
    hierarchy.cellHeight depth upper < hierarchy.cellHeight depth lower := by
  have source_le : upper.source.isSome.toNat ≤ lower.source.isSome.toNat := by
    rcases below.source with isUnknown | same
    · rw [isUnknown]
      exact Nat.zero_le _
    · exact Nat.le_of_eq (congrArg (·.isSome.toNat) same)
  by_cases sameType : lower.type = upper.type
  · -- Only the source is lost.
    have sourceDiffers : upper.source ≠ lower.source := by
      intro sameSource
      cases lower
      cases upper
      exact differ (congr (congrArg Cell.mk sameType) sameSource.symm)
    have isUnknown := below.source.resolve_right sourceDiffers
    obtain ⟨slot, isSource⟩ : ∃ slot, lower.source = some slot :=
      Option.ne_none_iff_exists'.mp fun isNone =>
        sourceDiffers (isUnknown.trans isNone.symm)
    rw [cellHeight, cellHeight, sameType, isUnknown, isSource]
    exact Nat.lt_succ_self _
  · exact Nat.add_lt_add_of_lt_of_le
      (placeHeight_lt acyclic rooted below.type sameType shallow) source_le

/-- A frame that goes up within limits, and changes, loses height. -/
theorem frameHeight_lt {lower upper : Frame} {limits : Frame.Limits}
    (below : hierarchy.SubFrame lower upper) (fits : upper.Fits limits)
    (differs : upper.locals ≠ lower.locals ∨ upper.stack ≠ lower.stack) :
    hierarchy.frameHeight limits.depth upper <
      hierarchy.frameHeight limits.depth lower := by
  have locals := sum_map_lt below.forall₂_locals fun first second member known differ =>
    placeHeight_lt acyclic rooted known differ (fits.shallow_of_mem member)
  have stack := sum_map_lt below.stack fun first second member known differ =>
    cellHeight_lt acyclic rooted known differ (fits.stack second member)
  rcases differs with differs | differs
  · exact Nat.add_lt_add_of_lt_of_le
      (locals.2 fun same => differs (Array.toList_inj.mp same.symm)) stack.1
  · exact Nat.add_lt_add_of_le_of_lt locals.1 (stack.2 fun same => differs same.symm)

end Grounded

end Hierarchy

end LocalTable
