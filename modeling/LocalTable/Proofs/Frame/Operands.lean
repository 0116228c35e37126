import Mathlib.Algebra.GroupWithZero.Nat
import LocalTable.Frames
import LocalTable.Proofs.Query

/-!
# Operands and results

Every operation on a frame gives a result or a fault.  Popping lowers the stack by the
width of what is popped.  What an instruction pushes is no deeper an array than those
among its operands and those that it brings in itself.

One fault stands apart, since it is a breakdown: a wide value may come from the last slot,
which has no slot above it.  Only a load can push a value that remembers its slot.
-/

namespace LocalTable

/-! ## Widths -/

theorem ValueType.width_eq_one_or_two (type : ValueType) :
    type.width = 1 ∨ type.width = 2 := by
  cases type <;> simp [ValueType.width]

theorem FieldType.width_eq_one_or_two (type : FieldType) :
    type.width = 1 ∨ type.width = 2 := by
  cases type with
  | base type => cases type <;> simp [FieldType.width, BaseType.width]
  | ref type => exact .inl rfl

theorem Kind.width_eq_one_or_two (kind : Kind) : kind.width = 1 ∨ kind.width = 2 := by
  cases kind <;> simp [Kind.width]

theorem ElementKind.width_eq_one_or_two (element : ElementKind) :
    element.width = 1 ∨ element.width = 2 := by
  cases element <;> simp [ElementKind.width]

theorem Numeric.width_eq_one_or_two (kind : Numeric) :
    kind.width = 1 ∨ kind.width = 2 := by
  cases kind <;> simp [Numeric.width]

/-- The slots of the parameters are those of the single parameters together. -/
theorem MethodDescriptor.parameterLength_eq (descriptor : MethodDescriptor)
    (hasReceiver : Bool) :
    descriptor.parameterLength hasReceiver =
      (descriptor.parameters.map FieldType.width).sum + hasReceiver.toNat := by
  rw [parameterLength, Nat.add_comm, List.sum, List.foldr_map]

/-! ## Dimensions -/

theorem RefType.dimensions_ofDimensions (element : BinaryName) (dimensions : Nat) :
    (ofDimensions element dimensions).dimensions = dimensions := by
  cases dimensions <;> rfl

/-- Dimensions of the array in a place, which are zero if there is no array. -/
def depthOf : Option ValueType → Nat
  | some (.reference type) => type.dimensions
  | _ => 0

theorem depthOf_ofField (type : FieldType) :
    depthOf (some (.ofField type)) = Instruction.arrayDepth.fieldDepth type := by
  cases type with
  | base type => cases type <;> rfl
  | ref type => rfl

/-- The components of an array have fewer dimensions. -/
theorem depthOf_component? (held : Option ValueType) :
    depthOf (held.bind ValueType.component?) ≤ depthOf held := by
  cases held with
  | none => exact Nat.le_refl 0
  | some type =>
      cases type with
      | reference type =>
          cases type with
          | object name => exact Nat.le_refl 0
          | objectArray extra element =>
              change (RefType.ofDimensions element extra).dimensions ≤ extra + 1
              rw [RefType.dimensions_ofDimensions]
              exact Nat.le_succ extra
          | primitiveArray extra element =>
              cases extra with
              | zero => cases element <;> exact Nat.zero_le _
              | succ extra => exact Nat.le_succ _
      | _ => exact Nat.le_refl 0

/-- What stands in for a missing type is no array. -/
theorem depthOf_getD {held : Option ValueType} {assumed : ValueType} {depth : Nat}
    (shallow : depthOf held ≤ depth) (noArray : depthOf (some assumed) = 0) :
    depthOf (some (held.getD assumed)) ≤ depth := by
  cases held with
  | none =>
      rw [Option.getD_none, noArray]
      exact Nat.zero_le depth
  | some type => exact shallow

theorem depthOf_intJoin {left right : ValueType} {depth : Nat}
    (leftShallow : depthOf (some left) ≤ depth)
    (rightShallow : depthOf (some right) ≤ depth) :
    depthOf (some (.intJoin left right)) ≤ depth := by
  unfold ValueType.intJoin
  split
  · exact leftShallow
  · split
    · exact rightShallow
    · split
      · exact leftShallow
      · exact Nat.zero_le depth

namespace Frame

/-! ## Results and faults -/

section Gives

variable {α β : Type} {missing : Prop} {P : α → Prop} {Q : β → Prop}

/-- The operation gives a result that satisfies the condition, or a fault.  An upper slot
is missing only in the given case. -/
def Gives (missing : Prop) (P : α → Prop) : Except FrameFault α → Prop
  | .ok result => P result
  | .error fault => fault = .noUpperSlot → missing

theorem Gives.of_ok {outcome : Except FrameFault α} {result : α}
    (gives : Gives missing P outcome) (isResult : outcome = .ok result) : P result := by
  rw [isResult] at gives
  exact gives

theorem Gives.of_error {outcome : Except FrameFault α} (gives : Gives missing P outcome)
    (isMissing : outcome = .error .noUpperSlot) : missing := by
  rw [isMissing] at gives
  exact gives rfl

theorem Gives.of_ne {outcome : Except FrameFault α}
    (present : outcome ≠ .error .noUpperSlot) :
    Gives missing (outcome = .ok ·) outcome := by
  cases outcome with
  | ok result => exact rfl
  | error fault => exact fun isMissing => absurd (congrArg _ isMissing) present

theorem Gives.mono {P' : α → Prop} {outcome : Except FrameFault α}
    (gives : Gives missing P outcome) (weaker : ∀ result, P result → P' result) :
    Gives missing P' outcome := by
  cases outcome with
  | ok result => exact weaker result gives
  | error fault => exact gives

theorem Gives.bind {outcome : Except FrameFault α} {next : α → Except FrameFault β}
    (first : Gives missing P outcome)
    (second : ∀ result, P result → Gives missing Q (next result)) :
    Gives missing Q (outcome >>= next) := by
  cases outcome with
  | ok result => exact second result first
  | error fault => exact first

end Gives

variable {frame next after : Frame} {missing : Prop}

/-! ## Popping -/

/-- The second frame is the first one without a number of cells. -/
structure Lowers (count : Nat) (before after : Frame) : Prop where
  enough : count ≤ before.stack.length
  eq : after = { before with stack := before.stack.drop count }

namespace Lowers

variable {count : Nat}

theorem refl (frame : Frame) : frame.Lowers 0 frame :=
  ⟨Nat.zero_le _, rfl⟩

theorem trans {further : Nat} (first : Lowers count frame next)
    (second : Lowers further next after) : Lowers (count + further) frame after := by
  have enough := second.enough
  rw [first.eq, List.length_drop] at enough
  refine ⟨?_, ?_⟩
  · have := first.enough
    omega
  · rw [second.eq, first.eq, List.drop_drop]

/-- The cells that stay lie deeper by what has been popped. -/
theorem peek?_eq {above : Nat} (lowers : Lowers count frame next) :
    next.peek? (above + 1) = frame.peek? (count + above + 1) := by
  simp only [peek?, lowers.eq, List.getElem?_drop]

end Lowers

theorem mem_of_peek? {distance : Nat} {cell : Cell}
    (isCell : frame.peek? distance = some cell) :
    cell ∈ frame.stack := by
  cases distance with
  | zero => cases isCell
  | succ above => exact List.mem_of_getElem? isCell

theorem gives_pop (frame : Frame) :
    Gives missing (fun (popped : Cell × Frame) =>
      frame.Lowers 1 popped.2 ∧ frame.peek? 1 = some popped.1) frame.pop := by
  unfold pop
  split
  next => exact nofun
  next cell rest isStack =>
    refine ⟨⟨?_, ?_⟩, ?_⟩
    · simp [isStack]
    · simp [isStack]
    · simp [peek?, isStack]

/-- The value of a popped wide pair is in the lower cell. -/
theorem gives_popWidth (frame : Frame) {width : Nat} (oneOrTwo : width = 1 ∨ width = 2) :
    Gives missing (fun (popped : Cell × Frame) =>
      frame.Lowers width popped.2 ∧ frame.peek? width = some popped.1)
      (frame.popWidth width) := by
  rcases oneOrTwo with rfl | rfl
  · exact gives_pop frame
  · refine .bind (gives_pop frame) fun (upper, middle) ⟨lowersFirst, _⟩ => ?_
    dsimp only
    split
    · refine (gives_pop middle).mono fun (cell, next) ⟨lowersSecond, isCell⟩ => ?_
      exact ⟨lowersFirst.trans lowersSecond, lowersFirst.peek?_eq.symm.trans isCell⟩
    · exact nofun

theorem gives_drop (frame : Frame) (count : Nat) :
    Gives missing (frame.Lowers count) (frame.drop count) := by
  induction count generalizing frame with
  | zero => exact .refl frame
  | succ count ih =>
      refine .bind (gives_pop frame) fun (_, middle) ⟨first, _⟩ => ?_
      refine (ih middle).mono fun next second => ?_
      rw [Nat.add_comm]
      exact first.trans second

theorem gives_dropWidths (frame : Frame) {widths : List Nat}
    (oneOrTwo : ∀ width ∈ widths, width = 1 ∨ width = 2) :
    Gives missing (frame.Lowers widths.sum) (frame.dropWidths widths) := by
  induction widths generalizing frame with
  | nil => exact Lowers.refl frame
  | cons width rest ih =>
      obtain ⟨ofWidth, ofRest⟩ := List.forall_mem_cons.mp oneOrTwo
      refine .bind (gives_popWidth frame ofWidth) fun (_, middle) ⟨first, _⟩ => ?_
      refine (ih middle ofRest).mono fun next second => ?_
      rw [List.sum_cons]
      exact first.trans second

/-- The arguments of a call take as many cells as slots. -/
theorem gives_arguments (frame : Frame) (parameters : List FieldType) :
    Gives missing (frame.Lowers (parameters.map FieldType.width).sum)
      (frame.dropWidths (parameters.reverse.map FieldType.width)) := by
  have oneOrTwo : ∀ width ∈ parameters.reverse.map FieldType.width, width = 1 ∨
      width = 2 := by
    intro width member
    obtain ⟨type, _, rfl⟩ := List.mem_map.mp member
    exact type.width_eq_one_or_two
  have gives : Gives missing _ _ := gives_dropWidths frame oneOrTwo
  rwa [List.map_reverse, List.sum_reverse, ← List.map_reverse] at gives

/-! ## Pushing and storing -/

theorem push_eq_ok {type : ValueType} {source : Option Nat}
    (pushed : frame.push type source = .ok after) :
    frame.stack.length + type.width ≤ frame.maxStack ∧ after = { frame with
      stack := (if type.width = 2 then [⟨some .top, source.map (· + 1)⟩] else []) ++
        ⟨some type, source⟩ :: frame.stack } := by
  unfold push at pushed
  split at pushed
  next => cases pushed
  next room =>
    refine ⟨Nat.le_of_not_lt room, ?_⟩
    split at pushed
    next isWide =>
      split at pushed
      next => cases pushed
      next =>
        cases pushed
        simp [isWide]
    next isNarrow =>
      cases pushed
      simp [isNarrow]

theorem push_ne_noUpperSlot {type : ValueType} {source : Option Nat}
    (inReach : source ≠ some lastSlot) :
    frame.push type source ≠ .error .noUpperSlot := by
  unfold push
  split
  · exact nofun
  · split <;> exact nofun

theorem pushCell_ne_noUpperSlot {cell : Cell} :
    frame.pushCell cell ≠ .error .noUpperSlot := by
  unfold pushCell
  split <;> exact nofun

theorem shuffle_ne_noUpperSlot {count : Nat} {order : List Nat} :
    frame.shuffle count order ≠ .error .noUpperSlot := by
  unfold shuffle
  split
  · exact nofun
  · exact foldlM_ne_error fun _ _ => pushCell_ne_noUpperSlot

theorem setLocal_ne_noUpperSlot {slot : Nat} {type : ValueType} :
    frame.setLocal slot type ≠ .error .noUpperSlot := by
  unfold setLocal
  split <;> exact nofun

end Frame

end LocalTable
