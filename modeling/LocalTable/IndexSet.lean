/-!
# Finite sets of indices

Positions in a method and local slots are small natural numbers, and the
analysis keeps many sets of them.  A set is a bit mask: index `i` belongs to it
exactly when bit `i` of the mask is set.  Two sets with the same members are
equal, and the members can be listed in ascending order.
-/

namespace LocalTable

/-- A finite set of natural numbers, kept as a bit mask. -/
structure IndexSet where
  mask : Nat
  deriving DecidableEq

namespace IndexSet

/-- Is the index a member? -/
def contains (set : IndexSet) (index : Nat) : Bool :=
  set.mask.testBit index

instance : Membership Nat IndexSet where
  mem set index := set.contains index = true

instance (index : Nat) (set : IndexSet) : Decidable (index ∈ set) :=
  inferInstanceAs (Decidable (set.contains index = true))

/-- The set without members. -/
def empty : IndexSet := ⟨0⟩

instance : EmptyCollection IndexSet := ⟨empty⟩

instance : Inhabited IndexSet := ⟨empty⟩

/-- Add one index. -/
def insert (set : IndexSet) (index : Nat) : IndexSet :=
  ⟨set.mask ||| (1 <<< index)⟩

/-- The members of either set. -/
def union (left right : IndexSet) : IndexSet :=
  ⟨left.mask ||| right.mask⟩

/-- The members of both sets. -/
def inter (left right : IndexSet) : IndexSet :=
  ⟨left.mask &&& right.mask⟩

/-- The members of the left set that the right set lacks. -/
def diff (left right : IndexSet) : IndexSet :=
  ⟨left.mask &&& (left.mask ^^^ right.mask)⟩

/-- Remove one index. -/
def erase (set : IndexSet) (index : Nat) : IndexSet :=
  set.diff ⟨1 <<< index⟩

/-- The set of the indices in a list. -/
def ofList (indices : List Nat) : IndexSet :=
  indices.foldl insert empty

/-- The members in ascending order. -/
def toList (set : IndexSet) : List Nat :=
  (List.range (set.mask.log2 + 1)).filter set.contains

/-- Number of indices below the bound that are not members. -/
def missingBelow (set : IndexSet) (bound : Nat) : Nat :=
  (List.range bound).countP fun index => !set.contains index

theorem mem_iff {index : Nat} {set : IndexSet} :
    index ∈ set ↔ set.contains index = true := Iff.rfl

@[simp] theorem contains_empty (index : Nat) :
    empty.contains index = false := by
  simp [contains, empty]

@[simp] theorem contains_insert (set : IndexSet) (added index : Nat) :
    (set.insert added).contains index = (set.contains index || added == index) := by
  simp only [contains, insert, Nat.testBit_or, Nat.shiftLeft_eq, Nat.one_mul,
    Nat.testBit_two_pow]
  rfl

@[simp] theorem contains_union (left right : IndexSet) (index : Nat) :
    (left.union right).contains index =
      (left.contains index || right.contains index) := by
  simp [contains, union]

@[simp] theorem contains_inter (left right : IndexSet) (index : Nat) :
    (left.inter right).contains index =
      (left.contains index && right.contains index) := by
  simp [contains, inter]

@[simp] theorem contains_diff (left right : IndexSet) (index : Nat) :
    (left.diff right).contains index =
      (left.contains index && !right.contains index) := by
  simp only [contains, diff, Nat.testBit_and, Nat.testBit_xor]
  cases left.mask.testBit index <;> cases right.mask.testBit index <;> rfl

@[simp] theorem contains_erase (set : IndexSet) (removed index : Nat) :
    (set.erase removed).contains index =
      (set.contains index && !(removed == index)) := by
  simp only [erase, contains_diff]
  simp only [contains, Nat.shiftLeft_eq, Nat.one_mul, Nat.testBit_two_pow]
  rfl

/-- Sets with the same members are equal. -/
theorem ext {left right : IndexSet}
    (same : ∀ index, left.contains index = right.contains index) : left = right := by
  cases left
  cases right
  congr 1
  exact Nat.eq_of_testBit_eq same

@[simp] theorem mem_toList {index : Nat} {set : IndexSet} :
    index ∈ set.toList ↔ index ∈ set := by
  simp only [toList, List.mem_filter, List.mem_range, mem_iff]
  refine ⟨And.right, fun member => ⟨?_, member⟩⟩
  have bound : 2 ^ index ≤ set.mask := Nat.ge_two_pow_of_testBit member
  have positive : set.mask ≠ 0 := by
    have := Nat.two_pow_pos index
    omega
  have := (Nat.le_log2 positive).mpr bound
  omega

theorem missingBelow_insert_lt {set : IndexSet} {bound index : Nat}
    (inBounds : index < bound) (fresh : set.contains index = false) :
    (set.insert index).missingBelow bound < set.missingBelow bound := by
  induction bound with
  | zero => omega
  | succ bound ih =>
      simp only [missingBelow, List.range_succ, List.countP_append,
        List.countP_singleton, contains_insert] at ih ⊢
      by_cases last : index = bound
      · subst last
        have rest : (List.range index).countP
              (fun other => !(set.contains other || index == other)) ≤
            (List.range index).countP fun other => !set.contains other :=
          List.countP_mono_left fun other _ absent => by
            simp only [Bool.not_or, Bool.and_eq_true] at absent
            exact absent.1
        simp [fresh] at rest ⊢
        omega
      · have before := ih (by omega)
        simp only [show (index == bound) = false by simp [last], Bool.or_false]
        omega

end IndexSet

end LocalTable
