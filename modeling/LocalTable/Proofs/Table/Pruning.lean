import LocalTable.Table.Complete
import LocalTable.Proofs.Frame.Demand

/-!
# What pruning keeps of a table

The role of a slot is found by counting off the parameters.  Said without counting, a
slot is free if it lies behind all parameters, and otherwise it is the first slot of one
of them (or that of the receiver) or the second one of a wide parameter.

Pruning therefore keeps an entry by its slot and by the slots of the entries before it.
What it keeps has no two entries in one slot of a parameter, so a second pruning drops
nothing.
-/

namespace LocalTable

/-! ## Roles of slots -/

/-- The role fits the slot, given the slots that all parameters take together and
what it means to be the first slot of one. -/
def SlotRole.Fits (length slot : Nat) (isFirst : Prop) : SlotRole → Prop
  | .receiver | .parameter _ => slot < length ∧ isFirst
  | .upperHalf => slot < length ∧ ¬ isFirst
  | .free => length ≤ slot

/-- Parameters that come before add the same number to the slot and to the slots in
all. -/
theorem SlotRole.Fits.shift {length slot : Nat} {isFirst shifted : Prop} {role : SlotRole}
    (fits : role.Fits length slot isFirst) (width : Nat) (same : shifted ↔ isFirst) :
    role.Fits (length + width) (slot + width) shifted := by
  cases role with
  | receiver | parameter => exact ⟨Nat.add_lt_add_right fits.1 width, same.mpr fits.2⟩
  | upperHalf =>
      exact ⟨Nat.add_lt_add_right fits.1 width, fun first => fits.2 (same.mp first)⟩
  | free => exact Nat.add_le_add_right fits width

theorem Method.le_of_mem_slotsFrom {first slot : Nat} {parameters : List FieldType}
    (member : slot ∈ slotsFrom first parameters) : first ≤ slot := by
  induction parameters generalizing first with
  | nil => cases member
  | cons type rest ih =>
      rcases List.mem_cons.mp member with rfl | later
      · exact Nat.le_refl slot
      · exact Nat.le_trans (Nat.le_add_right first type.width) (ih later)

/-- Counting off parameters that lie from a slot on finds the role of a slot among
them. -/
theorem SlotRole.fits_among (first slot index : Nat) (parameters : List FieldType) :
    (among slot index parameters).Fits (parameters.map FieldType.width).sum slot
      (first + slot ∈ Method.slotsFrom first parameters) := by
  induction parameters generalizing first slot index with
  | nil => exact Nat.zero_le slot
  | cons type rest ih =>
      have isWidth := type.width_eq_one_or_two
      rw [among, List.map_cons, List.sum_cons, Method.slotsFrom, List.mem_cons]
      split
      next isStart => exact ⟨by omega, .inl (by omega)⟩
      next notStart =>
        split
        next inside =>
          refine ⟨by omega, ?_⟩
          rintro (isStart | later)
          · omega
          · have := Method.le_of_mem_slotsFrom later
            omega
        next behind =>
          obtain ⟨above, rfl⟩ : ∃ above, slot = above + type.width :=
            ⟨slot - type.width, by omega⟩
          have isSlot : first + (above + type.width) =
              first + type.width + above := by omega
          rw [Nat.add_sub_cancel, Nat.add_comm type.width, isSlot]
          exact (ih (first + type.width) above (index + 1)).shift type.width
            (or_iff_right (by omega))

namespace Method

variable {method : Method} {code : Code} {entries : List Entry}

/-- The slot is that of the receiver, or the first one of a declared parameter. -/
def IsFirstSlot (method : Method) (slot : Nat) : Prop :=
  (method.isStatic = false ∧ slot = 0) ∨
    slot ∈ slotsFrom (!method.isStatic).toNat method.descriptor.parameters

instance (method : Method) (slot : Nat) : Decidable (method.IsFirstSlot slot) :=
  inferInstanceAs (Decidable (_ ∨ _))

/-- The entry lies behind the parameters, or it is the first one in the first slot of
one of them. The slots are those of the entries before it. -/
def Describes (method : Method) (before : List Nat) (entry : Entry) : Prop :=
  method.descriptor.parameterLength (!method.isStatic) ≤ entry.slot ∨
    method.IsFirstSlot entry.slot ∧ entry.slot ∉ before

instance (method : Method) (before : List Nat) (entry : Entry) :
    Decidable (method.Describes before entry) :=
  inferInstanceAs (Decidable (_ ∨ _))

theorem fits_role (method : Method) (slot : Nat) :
    (method.role slot).Fits (method.descriptor.parameterLength (!method.isStatic)) slot
      (method.IsFirstSlot slot) := by
  rw [MethodDescriptor.parameterLength_eq]
  unfold role IsFirstSlot
  cases isStatic : method.isStatic with
  | true =>
      have fits := SlotRole.fits_among 0 slot 0 method.descriptor.parameters
      exact fits.shift 0 (by simp)
  | false =>
      cases slot with
      | zero => exact ⟨Nat.zero_lt_succ _, .inl ⟨rfl, rfl⟩⟩
      | succ slot =>
          have fits := SlotRole.fits_among 1 slot 0 method.descriptor.parameters
          exact fits.shift 1 (by simp [Nat.add_comm 1 slot])

/-! ## Entries that are kept -/

theorem describes_iff {before : List Nat} {entry : Entry}
    (within : entry.slot < method.descriptor.parameterLength (!method.isStatic)) :
    method.Describes before entry ↔ method.IsFirstSlot entry.slot ∧ entry.slot ∉ before :=
  or_iff_right (Nat.not_le.mpr within)

theorem canonical_cons (method : Method) (seen : List Nat) (entry : Entry)
    (rest : List Entry) :
    method.canonical seen (entry :: rest) =
      if method.Describes seen entry then entry ::
        method.canonical (entry.slot :: seen) rest
      else method.canonical (entry.slot :: seen) rest := by
  have fits := method.fits_role entry.slot
  rw [canonical]
  cases isRole : method.role entry.slot with
  | receiver | parameter | upperHalf =>
      rw [isRole] at fits
      simp [describes_iff fits.1, fits.2]
  | free =>
      rw [isRole] at fits
      exact (if_pos (Or.inl fits)).symm

/-- What is kept depends on the parameters alone, not on the body. -/
theorem canonical_withCode (method : Method) (body : Option Code) (seen : List Nat)
    (entries : List Entry) :
    ({ method with code := body } : Method).canonical seen entries =
      method.canonical seen entries := by
  induction entries generalizing seen with
  | nil => rfl
  | cons entry rest ih =>
      have sameRole : ({ method with code := body } : Method).role entry.slot =
          method.role entry.slot := rfl
      simp only [canonical, sameRole, ih]

/-- The entries that are kept, by what comes before them in the table. -/
theorem canonical_eq_filter (method : Method) (before rest : List Entry) :
    method.canonical (before.map Entry.slot).reverse rest =
      ((rest.zipIdx before.length).filter fun placed => method.Describes
        (((before ++ rest).take placed.2).map Entry.slot) placed.1).map Prod.fst := by
  induction rest generalizing before with
  | nil => rfl
  | cons entry rest ih =>
      have later := ih (before ++ [entry])
      rw [List.map_append, List.reverse_append, List.append_assoc,
        List.length_append] at later
      have sameBefore : method.Describes (before.map Entry.slot).reverse entry ↔
          method.Describes
          (((before ++ entry :: rest).take before.length).map Entry.slot) entry := by
        simp [Describes]
      rw [canonical_cons, List.zipIdx_cons, List.filter_cons]
      simp only [sameBefore, decide_eq_true_eq]
      split
      · exact congrArg (entry :: ·) later
      · exact later

/-- What was kept is kept again, also with fewer slots before it. -/
theorem canonical_canonical (method : Method) {fewer seen : List Nat}
    (fewerSeen : fewer ⊆ seen) (entries : List Entry) :
    method.canonical fewer (method.canonical seen entries) =
      method.canonical seen entries := by
  induction entries generalizing fewer seen with
  | nil => rfl
  | cons entry rest ih =>
      rw [canonical_cons]
      split
      next describes =>
        have stillDescribes : method.Describes fewer entry :=
          describes.imp_right fun first =>
            ⟨first.1, fun member => first.2 (fewerSeen member)⟩
        rw [canonical_cons, if_pos stillDescribes,
          ih (List.cons_subset_cons entry.slot fewerSeen)]
      next => exact ih (List.subset_cons_of_subset entry.slot fewerSeen)

theorem prune_eq (hasCode : method.code = some code)
    (hasTable : code.table = some entries) :
    method.prune =
      ({ method with code := some { code with
        table := some (method.canonical [] entries) } },
        entries.length - (method.canonical [] entries).length) := by
  simp only [prune, hasCode, hasTable]

theorem prune_of_canonical (hasCode : method.code = some code)
    (hasTable : code.table = some entries)
    (isCanonical : method.canonical [] entries = entries) :
    method.prune = (method, 0) := by
  rw [prune_eq hasCode hasTable, isCanonical, Nat.sub_self]
  cases method
  cases code
  cases hasCode
  cases hasTable
  rfl

/-- A table that was pruned has exactly the entries behind the parameters and the first
entry in the slot of the receiver and in the first slot of each parameter, in the order
they had.  The other entries are counted, and pruning once more drops none. -/
theorem pruning_keeps_canonical_entries (hasCode : method.code = some code)
    (hasTable : code.table = some entries) :
    ∃ kept,
      method.prune.1 = { method with code := some { code with table := some kept } } ∧
      kept = (entries.zipIdx.filter fun placed =>
        method.Describes ((entries.take placed.2).map Entry.slot) placed.1).map Prod.fst ∧
      kept.length + method.prune.2 = entries.length ∧
      method.prune.1.prune = (method.prune.1, 0) := by
  rw [prune_eq hasCode hasTable]
  have isKept := method.canonical_eq_filter [] entries
  have keptLength : (method.canonical [] entries).length ≤ entries.length :=
    calc (method.canonical [] entries).length
      _ = _ := (congrArg List.length isKept).trans (List.length_map _)
      _ ≤ entries.zipIdx.length := List.length_filter_le _ _
      _ = entries.length := List.length_zipIdx
  refine ⟨method.canonical [] entries, rfl, isKept, Nat.add_sub_cancel' keptLength, ?_⟩
  have keptAgain := method.canonical_canonical (List.Subset.refl []) entries
  exact prune_of_canonical rfl rfl ((method.canonical_withCode _ [] _).trans keptAgain)

/-- An instance method of a wide parameter and a narrow one. -/
def wideParameterMethod (entries : List Entry) : Method :=
  { name := ⟨"wideParameter", by decide⟩
    descriptor := ⟨[.base .long, .base .int], none⟩
    access := ⟨0⟩
    code := some
      { maxStack := 0
        maxLocals := 6
        instructions := #[.label ⟨0⟩, .returnVoid, .label ⟨1⟩]
        handlers := []
        table := some entries }
    parameterNames := none }

/-- The entry of a variable without a name of its own. -/
def unnamedEntry (slot : Nat) : Entry :=
  ⟨⟨"unnamed", by decide⟩, .base .int, ⟨0⟩, ⟨1⟩, slot⟩

/-- Second entries of the receiver and of a parameter go, and with them the entry in the
upper half of the wide parameter.  Two entries in one slot behind the parameters
stay. -/
theorem wide_parameter_method_pruned :
    ∃ kept, (wideParameterMethod ([0, 0, 1, 2, 3, 3, 4, 4].map unnamedEntry)).prune =
        (wideParameterMethod kept, 3) ∧
      kept = [0, 1, 3, 4, 4].map unnamedEntry ∧
      (wideParameterMethod kept).prune = (wideParameterMethod kept, 0) := by
  obtain ⟨kept, pruned, isKept, counted, again⟩ := @pruning_keeps_canonical_entries
    (wideParameterMethod ([0, 0, 1, 2, 3, 3, 4, 4].map unnamedEntry)) _ _ rfl rfl
  have isPruned : _ = wideParameterMethod kept := pruned
  have isFive : kept = [0, 1, 3, 4, 4].map unnamedEntry := isKept.trans (by decide)
  rw [isFive] at counted
  rw [isPruned] at again
  exact ⟨kept, Prod.ext isPruned (Nat.add_left_cancel counted), isFive, again⟩

end Method

end LocalTable
