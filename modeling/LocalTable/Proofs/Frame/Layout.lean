import LocalTable.Parameter
import LocalTable.Proofs.Frame.Demand
import LocalTable.Proofs.Frames.Deltas

/-!
# The layout of parameters

Where the parameters of a method lie is counted off three times: when they are stored in
the first frame, when their slots are listed, and when the slots that they take are
added up.  All three agree, as the receiver is nothing but a first parameter, and each
parameter lies behind those before it, so that no store reaches the slots of another
one.
-/

namespace LocalTable

theorem ValueType.width_ofField (type : FieldType) :
    (ofField type).width = type.width := by
  cases type with
  | base type => cases type <;> rfl
  | ref type => rfl

theorem FieldType.width_eq_two {type : FieldType} :
    type.width = 2 ↔ type = .base .long ∨ type = .base .double := by
  cases type with
  | base type => cases type <;> simp [FieldType.width, BaseType.width]
  | ref type => simp [FieldType.width]

namespace Method

/-- The slots of parameters that lie one behind the other are all slots from the first
one on. -/
theorem exists_slotsFrom_iff {first slot : Nat} {types : List FieldType} :
    (∃ placed ∈ types.zip (slotsFrom first types),
      placed.2 ≤ slot ∧ slot < placed.2 + placed.1.width) ↔
      first ≤ slot ∧ slot < first + (types.map FieldType.width).sum := by
  induction types generalizing first with
  | nil => simp
  | cons type rest ih =>
      rw [slotsFrom, List.zip_cons_cons, List.exists_mem_cons_iff, ih, List.map_cons,
        List.sum_cons]
      dsimp only
      omega

theorem lt_of_mem_slotsFrom {first slot : Nat} {types : List FieldType}
    (member : slot ∈ slotsFrom first types) :
    slot < first + (types.map FieldType.width).sum := by
  induction types generalizing first with
  | nil => cases member
  | cons type rest ih =>
      have width := type.width_eq_one_or_two
      rw [List.map_cons, List.sum_cons]
      rcases List.mem_cons.mp member with rfl | later
      · omega
      · have := ih later
        omega

theorem length_slotsFrom (first : Nat) (types : List FieldType) :
    (slotsFrom first types).length = types.length := by
  induction types generalizing first with
  | nil => rfl
  | cons type rest ih => exact congrArg (· + 1) (ih _)

end Method

namespace Frame

variable {frame next : Frame}

/-- Parameters are stored at their slots, and nothing below the first one changes. -/
theorem places_of_storeParameters {types : List FieldType} {slot stop : Nat}
    (beyond : ∀ other, slot ≤ other → frame.localAt other = none)
    (stored : frame.storeParameters slot types = .ok (stop, next)) :
    stop = slot + (types.map FieldType.width).sum ∧
      (∀ other < slot, next.localAt other = frame.localAt other) ∧
      ∀ placed ∈ types.zip (Method.slotsFrom slot types),
        next.localAt placed.2 = some (.ofField placed.1) := by
  induction types generalizing frame slot with
  | nil =>
      cases stored
      exact ⟨rfl, fun _ _ => rfl, nofun⟩
  | cons type rest ih =>
      obtain ⟨_, middle, first, stored⟩ := storeParameters_cons_iff.mp stored
      have localAt := localAt_setLocal_into_empty (beyond slot (Nat.le_refl slot)) first
      rw [ValueType.width_ofField] at stored localAt
      have width := type.width_eq_one_or_two
      obtain ⟨isStop, below, places⟩ := ih (fun other isBeyond => by
        rw [localAt, if_neg (by omega), if_neg (by omega)]
        exact beyond other (by omega)) stored
      refine ⟨?_, fun other isBelow => ?_, ?_⟩
      · rw [isStop, List.map_cons, List.sum_cons, Nat.add_assoc]
      · rw [below other (by omega), localAt, if_neg (by omega), if_neg (by omega)]
      · rw [Method.slotsFrom, List.zip_cons_cons, List.forall_mem_cons]
        refine ⟨?_, places⟩
        dsimp only
        rw [below slot (by omega), localAt, if_pos rfl]

/-- Parameters that fit can be stored. -/
theorem exists_storeParameters {types : List FieldType} {slot : Nat}
    (addressable : frame.locals.size ≤ lastSlot)
    (fits : slot + (types.map FieldType.width).sum ≤ frame.locals.size) :
    ∃ stop next, frame.storeParameters slot types = .ok (stop, next) := by
  induction types generalizing frame slot with
  | nil => exact ⟨slot, frame, rfl⟩
  | cons type rest ih =>
      rw [List.map_cons, List.sum_cons] at fits
      have width := type.width_eq_one_or_two
      obtain ⟨middle, first⟩ := @exists_setLocal frame slot (.ofField type) (by
        rw [ValueType.width_ofField]
        omega)
      have size_eq := (setLocal_eq_ok first).2.2
      obtain ⟨stop, next, stored⟩ :=
        @ih middle (slot + type.width) (size_eq ▸ addressable)
        (by omega)
      refine ⟨stop, next, storeParameters_cons_iff.mpr ⟨by omega, middle, first, ?_⟩⟩
      rw [ValueType.width_ofField]
      exact stored

theorem sum_arguments (receiver : Option BinaryName) (descriptor : MethodDescriptor) :
    ((arguments receiver descriptor).map FieldType.width).sum =
      descriptor.parameterLength receiver.isSome := by
  rw [descriptor.parameterLength_eq]
  cases receiver with
  | none => rfl
  | some owner => exact Nat.add_comm ..

/-- The first frame holds the receiver in the first slot and the parameters behind it. -/
theorem places_of_entry {receiver : Option BinaryName} {descriptor : MethodDescriptor}
    {maxLocals maxStack : Nat}
    (entered : entry receiver descriptor maxLocals maxStack = .ok frame) :
    frame.described = descriptor.parameterLength receiver.isSome ∧
      (∀ owner, receiver = some owner → frame.localAt 0 = some (.object owner)) ∧
      ∀ placed ∈ descriptor.parameters.zip
          (Method.slotsFrom receiver.isSome.toNat descriptor.parameters),
        frame.localAt placed.2 = some (.ofField placed.1) := by
  obtain ⟨stop, stored, isStored, rfl⟩ := storeParameters_of_entry entered
  obtain ⟨isStop, _, places⟩ :=
    places_of_storeParameters
      (fun other _ => localAt_empty maxLocals maxStack other) isStored
  rw [sum_arguments, Nat.zero_add] at isStop
  refine ⟨isStop, ?_⟩
  cases receiver with
  | none => exact ⟨nofun, places⟩
  | some owner =>
      obtain ⟨first, places⟩ := List.forall_mem_cons.mp places
      refine ⟨?_, places⟩
      rintro _ ⟨⟩
      exact first

/-- There is a first frame exactly if the parameters fit into the locals. -/
theorem exists_entry_iff {receiver : Option BinaryName} {descriptor : MethodDescriptor}
    {maxLocals maxStack : Nat} (addressable : maxLocals ≤ lastSlot) :
    (∃ frame, entry receiver descriptor maxLocals maxStack = .ok frame) ↔
      descriptor.parameterLength receiver.isSome ≤ maxLocals := by
  constructor
  · rintro ⟨frame, entered⟩
    rw [← (places_of_entry entered).1, ← (described_entry entered).size_eq]
    exact described_le_of_entry entered
  · intro fits
    have size_eq : (empty maxLocals maxStack).locals.size = maxLocals :=
      Array.size_replicate
    rw [← size_eq] at addressable
    rw [← sum_arguments, ← size_eq, ← Nat.zero_add (List.sum _)] at fits
    obtain ⟨stop, stored, isStored⟩ := exists_storeParameters addressable fits
    rw [entry_eq]
    exact ⟨_, bind_eq_ok.mpr ⟨_, isStored, rfl⟩⟩

end Frame

namespace Method

variable {method : Method}

theorem length_parameterSlots (method : Method) :
    method.parameterSlots.length = method.descriptor.parameters.length := by
  rw [parameterSlots, List.length_map, length_slotsFrom]

/-- Slots of parameters that fit into the locals are not cut off. -/
theorem parameterSlots_eq
    (fits : method.descriptor.parameterLength (!method.isStatic) ≤ Frame.lastSlot) :
    method.parameterSlots =
      slotsFrom (!method.isStatic).toNat method.descriptor.parameters := by
  have first_eq : (if method.isStatic then 0 else 1) = (!method.isStatic).toNat := by
    cases method.isStatic <;> rfl
  rw [MethodDescriptor.parameterLength_eq, Nat.add_comm] at fits
  rw [parameterSlots, first_eq]
  refine (List.map_congr_left fun slot member => ?_).trans (List.map_id _)
  have small := lt_of_mem_slotsFrom member
  exact Nat.mod_eq_of_lt (by unfold Frame.lastSlot at fits; omega)

/-- The slots below the length are those of the receiver and of the parameters. -/
theorem lt_parameterLength_iff {slot : Nat}
    (fits : method.descriptor.parameterLength (!method.isStatic) ≤ Frame.lastSlot) :
    slot < method.descriptor.parameterLength (!method.isStatic) ↔
      (method.isStatic = false ∧ slot = 0) ∨
        ∃ (index first : Nat) (type : FieldType),
          method.descriptor.parameters[index]? = some type ∧
          method.parameterSlots[index]? = some first ∧
          (slot = first ∨ slot = first + 1 ∧
            (type = .base .long ∨ type = .base .double)) := by
  have receiver_iff : (method.isStatic = false ∧ slot = 0) ↔
      slot < (!method.isStatic).toNat := by
    cases method.isStatic <;> simp
  rw [parameterSlots_eq fits, MethodDescriptor.parameterLength_eq, receiver_iff]
  constructor
  · intro below
    rcases Nat.lt_or_ge slot (!method.isStatic).toNat with isReceiver | isBehind
    · exact .inl isReceiver
    · obtain ⟨⟨type, first⟩, member, starts, stops⟩ := exists_slotsFrom_iff.mpr
        ⟨isBehind, Nat.add_comm .. ▸ below⟩
      obtain ⟨index, isPlaced⟩ := List.mem_iff_getElem?.mp member
      obtain ⟨isType, isFirst⟩ := List.getElem?_zip_eq_some.mp isPlaced
      refine .inr ⟨index, first, type, isType, isFirst, ?_⟩
      have width := type.width_eq_one_or_two
      rw [← FieldType.width_eq_two]
      dsimp only at starts stops
      omega
  · rintro (isReceiver | ⟨index, first, type, isType, isFirst, within⟩)
    · exact Nat.lt_add_left _ isReceiver
    · have member := List.mem_of_getElem?
        ((List.getElem?_zip_eq_some (z := (type, first))).mpr ⟨isType, isFirst⟩)
      have width := type.width_eq_one_or_two
      rw [← FieldType.width_eq_two] at within
      have inside : first ≤ slot ∧ slot < first + type.width := by omega
      rw [Nat.add_comm]
      exact (exists_slotsFrom_iff.mp ⟨(type, first), member, inside⟩).2

/-- The frame holds the receiver and the parameters of the method in the slots that are
listed for them, and nothing else. -/
structure LaidOut (method : Method) (owner : BinaryName) (frame : Frame) : Prop where
  receiver (isInstance : method.isStatic = false) : frame.localAt 0 = some (.object owner)
  parameter {index : Nat} {type : FieldType}
    (isParameter : method.descriptor.parameters[index]? = some type) :
    ∃ slot, method.parameterSlots[index]? = some slot ∧
      frame.localAt slot = some (.ofField type) ∧
      (frame.localAt (slot + 1) = some .top ↔ type = .base .long ∨ type = .base .double)
  /-- These slots, with the second ones of wide parameters, are all slots of
  parameters. -/
  slots (slot : Nat) : slot < method.descriptor.parameterLength (!method.isStatic) ↔
    (method.isStatic = false ∧ slot = 0) ∨
      ∃ (index first : Nat) (type : FieldType),
        method.descriptor.parameters[index]? = some type ∧
        method.parameterSlots[index]? = some first ∧
        (slot = first ∨ slot = first + 1 ∧ (type = .base .long ∨ type = .base .double))
  free {slot : Nat} (isBeyond : method.descriptor.parameterLength
    (!method.isStatic) ≤ slot) :
    frame.localAt slot = none

theorem laidOut_of_entry {owner : BinaryName} {maxLocals maxStack : Nat} {frame : Frame}
    (fits : method.descriptor.parameterLength (!method.isStatic) ≤ Frame.lastSlot)
    (entered : Frame.entry (if method.isStatic then none else some owner)
      method.descriptor maxLocals maxStack = .ok frame) :
    method.LaidOut owner frame := by
  have isDescribed := Frame.described_entry entered
  obtain ⟨described_eq, receiver, places⟩ := Frame.places_of_entry entered
  have isSome : (if method.isStatic then none else some owner).isSome =
      !method.isStatic := by
    cases method.isStatic <;> rfl
  rw [isSome] at described_eq places
  rw [← parameterSlots_eq fits] at places
  refine ⟨fun isInstance => receiver owner (if_neg (by simp [isInstance])), ?_,
    fun slot => lt_parameterLength_iff fits,
    fun isBeyond => isDescribed.beyond (described_eq ▸ isBeyond)⟩
  intro index type isParameter
  have inRange := (List.getElem?_eq_some_iff.mp isParameter).1
  rw [← length_parameterSlots] at inRange
  have isSlot := List.getElem?_eq_getElem inRange
  generalize method.parameterSlots[index] = slot at isSlot
  have held : frame.localAt slot = some (.ofField type) :=
    places (type, slot) (List.mem_of_getElem?
      (List.getElem?_zip_eq_some.mpr ⟨isParameter, isSlot⟩))
  refine ⟨slot, isSlot, held, ?_⟩
  rw [← FieldType.width_eq_two, ← ValueType.width_ofField]
  constructor
  · intro isUpper
    have below : slot + 1 < frame.described := by
      apply Nat.lt_of_not_le
      intro isBeyond
      rw [isDescribed.beyond isBeyond] at isUpper
      cases isUpper
    obtain ⟨before, wide, isBefore, heldBefore, isWide⟩ :=
      isDescribed.paired.lower below isUpper
    cases isBefore
    rw [held] at heldBefore
    cases heldBefore
    exact isWide
  · exact isDescribed.shaped.upper held

/-- The first frame, the list of slots and the number of slots lay out the parameters of
a method in the same way. -/
theorem parameter_layouts_agree (method : Method) (owner : BinaryName) {maxLocals : Nat}
    (maxStack : Nat) (addressable : maxLocals ≤ 65535) :
    let receiver := if method.isStatic then none else some owner
    ((∃ frame, Frame.entry receiver method.descriptor maxLocals maxStack = .ok frame) ↔
      method.descriptor.parameterLength (!method.isStatic) ≤ maxLocals) ∧
    ∀ frame, Frame.entry receiver method.descriptor maxLocals maxStack = .ok frame →
      method.LaidOut owner frame := by
  intro receiver
  have isSome : receiver.isSome = !method.isStatic := by
    unfold receiver
    cases method.isStatic <;> rfl
  have exists_iff := @Frame.exists_entry_iff receiver method.descriptor maxLocals maxStack
    addressable
  rw [isSome] at exists_iff
  refine ⟨exists_iff, fun frame entered => laidOut_of_entry ?_ entered⟩
  exact Nat.le_trans (exists_iff.mp ⟨frame, entered⟩) addressable

/-- Two wide parameters, an array of wide elements last. -/
def widelyCalledMethod : Method :=
  { name := ⟨"widelyCalled", by decide⟩
    descriptor :=
      ⟨[.base .long, .base .int, .base .double, .ref (.array (.base .long))], none⟩
    access := ⟨0⟩
    code := none
    parameterNames := none }

/-- With the receiver the parameters need seven slots, and six are too few. -/
theorem widely_called_parameters_laid_out :
    widelyCalledMethod.parameterSlots = [1, 3, 4, 6] ∧
      (∃ frame, Frame.entry (some .throwable) widelyCalledMethod.descriptor 8
        0 = .ok frame ∧ widelyCalledMethod.LaidOut .throwable frame) ∧
      ¬ ∃ frame, Frame.entry (some .throwable) widelyCalledMethod.descriptor 6 0 =
        .ok frame := by
  obtain ⟨roomy_iff, laidOut⟩ :=
    parameter_layouts_agree widelyCalledMethod .throwable 0 (show 8 ≤ 65535 by decide)
  obtain ⟨tight_iff, _⟩ :=
    parameter_layouts_agree widelyCalledMethod .throwable 0 (show 6 ≤ 65535 by decide)
  obtain ⟨frame, entered⟩ := roomy_iff.mpr (by decide)
  refine ⟨by decide, ⟨frame, entered, laidOut frame entered⟩, fun isEntered => ?_⟩
  exact absurd (tight_iff.mp isEntered) (by decide)

end Method

end LocalTable
