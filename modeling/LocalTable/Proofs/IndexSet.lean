import Mathlib.Data.List.Basic
import LocalTable.IndexSet

/-!
# Members of index sets

The set of the indices in a list has exactly these members, and the members are
listed in ascending order.
-/

namespace LocalTable.IndexSet

@[simp] theorem mem_empty (index : Nat) : ¬index ∈ (∅ : IndexSet) := by
  simp [mem_iff, show (∅ : IndexSet) = empty from rfl]

@[simp] theorem mem_insert {set : IndexSet} {added index : Nat} :
    index ∈ set.insert added ↔ index = added ∨ index ∈ set := by
  simp only [mem_iff, contains_insert, Bool.or_eq_true, beq_iff_eq]
  exact ⟨fun member => member.elim .inr (.inl ·.symm),
    fun member => member.elim (.inr ·.symm) .inl⟩

@[simp] theorem mem_union {left right : IndexSet} {index : Nat} :
    index ∈ left.union right ↔ index ∈ left ∨ index ∈ right := by
  simp [mem_iff]

@[simp] theorem mem_inter {left right : IndexSet} {index : Nat} :
    index ∈ left.inter right ↔ index ∈ left ∧ index ∈ right := by
  simp [mem_iff]

@[simp] theorem mem_diff {left right : IndexSet} {index : Nat} :
    index ∈ left.diff right ↔ index ∈ left ∧ index ∉ right := by
  simp [mem_iff]

@[simp] theorem mem_erase {set : IndexSet} {removed index : Nat} :
    index ∈ set.erase removed ↔ index ∈ set ∧ index ≠ removed := by
  simp only [mem_iff, contains_erase, Bool.and_eq_true, Bool.not_eq_true',
    beq_eq_false_iff_ne, ne_comm]

theorem contains_eq_false {set : IndexSet} {index : Nat} :
    set.contains index = false ↔ index ∉ set := by
  simp [mem_iff]

theorem mem_foldl_insert {indices : List Nat} {set : IndexSet} {index : Nat} :
    index ∈ indices.foldl insert set ↔ index ∈ set ∨ index ∈ indices := by
  induction indices generalizing set with
  | nil => simp
  | cons head rest ih =>
      rw [List.foldl_cons, ih, mem_insert, List.mem_cons]
      constructor
      · rintro ((rfl | inSet) | inRest)
        · exact .inr (.inl rfl)
        · exact .inl inSet
        · exact .inr (.inr inRest)
      · rintro (inSet | rfl | inRest)
        · exact .inl (.inr inSet)
        · exact .inl (.inl rfl)
        · exact .inr inRest

theorem mem_foldl_union {items : List Nat} {sets : Nat → IndexSet} {set : IndexSet}
    {index : Nat} :
    index ∈ items.foldl (fun union item => union.union (sets item)) set ↔
      index ∈ set ∨ ∃ item ∈ items, index ∈ sets item := by
  induction items generalizing set with
  | nil => simp
  | cons head rest ih =>
      rw [List.foldl_cons, ih, mem_union, List.exists_mem_cons_iff, or_assoc]

@[simp] theorem mem_ofList {indices : List Nat} {index : Nat} :
    index ∈ ofList indices ↔ index ∈ indices := by
  rw [ofList, mem_foldl_insert]
  exact or_iff_right (mem_empty index)

/-- Adding members leaves fewer indices out, unless they are members already. -/
theorem union_eq_or_missingBelow_lt {set added : IndexSet} {bound : Nat}
    (below : ∀ index ∈ added, index < bound) :
    set.union added = set ∨ (set.union added).missingBelow
      bound < set.missingBelow bound := by
  by_cases all : ∀ index ∈ added, index ∈ set
  · refine .inl (ext fun index => Bool.eq_iff_iff.mpr ?_)
    exact mem_union.trans (or_iff_left_of_imp (all index))
  · simp only [not_forall] at all
    obtain ⟨index, isAdded, isNew⟩ := all
    refine .inr (Nat.lt_of_le_of_lt ?_
      (missingBelow_insert_lt (below index isAdded) (contains_eq_false.mpr isNew)))
    apply List.countP_mono_left
    intro other _ isMissing
    rw [Bool.not_eq_true', contains_eq_false] at isMissing ⊢
    intro member
    exact isMissing (mem_union.mpr ((mem_insert.mp member).elim (· ▸ .inr isAdded) .inl))

theorem pairwise_toList (set : IndexSet) : set.toList.Pairwise (· < ·) :=
  List.pairwise_lt_range.filter _

theorem nodup_toList (set : IndexSet) : set.toList.Nodup :=
  set.pairwise_toList.imp Nat.ne_of_lt

end LocalTable.IndexSet
