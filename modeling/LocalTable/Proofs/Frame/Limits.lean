import LocalTable.Frames
import LocalTable.Proofs.Frames.Seeds

/-!
# Limits of frames

A method sets limits to its frames: the number of locals, the height of the stack,
and the dimensions of arrays, since an array is never deeper than the deepest one that
the descriptor or an instruction brings in.  The given frames keep to the limits, and
so does everything that instructions, handlers and joins make of them.
-/

namespace LocalTable

/-! ## Dimensions -/

namespace Hierarchy

variable {hierarchy : Hierarchy}

theorem SubRef.dimensions_le {lower upper : RefType}
    (below : hierarchy.SubRef lower upper) :
    upper.dimensions ≤ lower.dimensions := by
  cases below with
  | refl => exact Nat.le_refl _
  | object => exact Nat.le_refl 0
  | objectArray => exact Nat.le_refl _
  | shallower fewer =>
      rw [RefType.dimensions_ofDimensions]
      exact Nat.le_of_lt fewer

end Hierarchy

/-- A joined type has no more dimensions than the two types. -/
theorem Query.depthOf_mergeTypes {hierarchy : Hierarchy} {seeded : Bool}
    {left right result : Option ValueType} {depth : Nat}
    (leftShallow : depthOf left ≤ depth) (rightShallow : depthOf right ≤ depth)
    (answered : (mergeTypes seeded left right : Query hierarchy _).eval = .ok result) :
    depthOf result ≤ depth := by
  unfold mergeTypes at answered
  split at answered
  next left right =>
    split at answered
    next =>
      cases answered
      exact Nat.zero_le depth
    next =>
      split at answered
      next =>
        cases answered
        exact rightShallow
      next =>
        rcases join_eq_ok answered with ⟨_, rfl⟩ | ⟨_, _, _, rfl⟩ | ⟨_, _, _, rfl⟩ |
          ⟨leftRef, _, type, rfl, _, common, rfl⟩ | ⟨_, _, rfl⟩ | rfl
        · exact leftShallow
        · exact rightShallow
        · exact leftShallow
        · exact Nat.le_trans (subRef_of_commonRefType common).1.dimensions_le leftShallow
        · exact depthOf_intJoin leftShallow rightShallow
        · exact Nat.zero_le depth
  next =>
    cases answered
    exact Nat.zero_le depth

/-! ## Frames within limits -/

/-- The values that a snapshot lists. -/
def Snapshot.values : Snapshot → List VerificationType
  | .same | .chop _ => []
  | .sameOneStack value => [value]
  | .append locals => locals
  | .full locals stack => locals ++ stack

namespace Frame

/-- What the frames of a method keep to. -/
structure Limits where
  maxLocals : Nat
  maxStack : Nat
  /-- Dimensions of arrays. -/
  depth : Nat

/-- The frame keeps to the limits. -/
structure Fits (limits : Limits) (frame : Frame) : Prop where
  size_eq : frame.locals.size = limits.maxLocals
  maxStack_eq : frame.maxStack = limits.maxStack
  length_le : frame.stack.length ≤ limits.maxStack
  locals (slot : Nat) : depthOf (frame.localAt slot) ≤ limits.depth
  stack : ∀ cell ∈ frame.stack, depthOf cell.type ≤ limits.depth

namespace Fits

variable {frame next : Frame} {limits : Limits} {type : ValueType}

theorem shallow_of_mem {held : Option ValueType} (fits : frame.Fits limits)
    (member : held ∈ frame.locals.toList) : depthOf held ≤ limits.depth := by
  obtain ⟨slot, there⟩ := List.mem_iff_getElem?.mp member
  have shallow := fits.locals slot
  rwa [localAt_eq, ← Array.getElem?_toList, there] at shallow

/-- The limits are about the locals and the stack only. -/
theorem congr (fits : frame.Fits limits) (locals_eq : next.locals = frame.locals)
    (maxStack_eq : next.maxStack = frame.maxStack) (stack_eq : next.stack = frame.stack) :
    next.Fits limits := by
  refine ⟨locals_eq ▸ fits.size_eq, maxStack_eq ▸ fits.maxStack_eq,
    stack_eq ▸ fits.length_le, ?_, stack_eq ▸ fits.stack⟩
  simp only [localAt, locals_eq]
  exact fits.locals

theorem clearStack (fits : frame.Fits limits) : frame.clearStack.Fits limits :=
  ⟨fits.size_eq, fits.maxStack_eq, Nat.zero_le _, fits.locals, nofun⟩

/-- Cells may be taken away. -/
theorem lower (fits : frame.Fits limits) {stack : List Cell}
    (sublist : stack.Sublist frame.stack) :
    { frame with stack := stack }.Fits limits :=
  ⟨fits.size_eq, fits.maxStack_eq,
    Nat.le_trans sublist.length_le fits.length_le, fits.locals, fun cell member =>
      fits.stack cell (sublist.subset member)⟩

theorem lowers {count : Nat} (fits : frame.Fits limits)
    (lowers : frame.Lowers count next) :
    next.Fits limits := by
  rw [lowers.eq]
  exact fits.lower (List.drop_sublist count frame.stack)

theorem pushCell {cell : Cell} (fits : frame.Fits limits)
    (shallow : depthOf cell.type ≤ limits.depth)
    (pushed : frame.pushCell cell = .ok next) : next.Fits limits := by
  unfold Frame.pushCell at pushed
  split at pushed
  next enough =>
    cases pushed
    refine ⟨fits.size_eq, fits.maxStack_eq, fits.maxStack_eq ▸ enough, fits.locals, ?_⟩
    exact List.forall_mem_cons.mpr ⟨shallow, fits.stack⟩
  next => cases pushed

theorem push {source : Option Nat} (fits : frame.Fits limits)
    (shallow : depthOf (some type) ≤ limits.depth)
    (pushed : frame.push type source = .ok next) :
    next.Fits limits := by
  obtain ⟨room, rfl⟩ := push_eq_ok pushed
  rw [fits.maxStack_eq] at room
  have cells : ∀ cell ∈ ⟨some type, source⟩ :: frame.stack,
      depthOf cell.type ≤ limits.depth :=
    List.forall_mem_cons.mpr ⟨shallow, fits.stack⟩
  rcases type.width_eq_one_or_two with isNarrow | isWide
  · rw [isNarrow] at room ⊢
    exact ⟨fits.size_eq, fits.maxStack_eq, room, fits.locals, cells⟩
  · rw [isWide] at room ⊢
    exact ⟨fits.size_eq, fits.maxStack_eq, room, fits.locals,
      List.forall_mem_cons.mpr ⟨Nat.zero_le _, cells⟩⟩

theorem pushCells {cells : List Cell} (fits : frame.Fits limits)
    (shallow : ∀ cell ∈ cells, depthOf cell.type ≤ limits.depth)
    (pushed : cells.foldlM Frame.pushCell frame = .ok next) : next.Fits limits := by
  induction cells generalizing frame with
  | nil =>
      cases pushed
      exact fits
  | cons cell rest ih =>
      rw [List.foldlM_cons] at pushed
      obtain ⟨middle, first, pushed⟩ := bind_eq_ok.mp pushed
      obtain ⟨headShallow, restShallow⟩ := List.forall_mem_cons.mp shallow
      exact ih (fits.pushCell headShallow first) restShallow pushed

theorem shuffle {count : Nat} {order : List Nat} (fits : frame.Fits limits)
    (shuffled : frame.shuffle count order = .ok next) : next.Fits limits := by
  unfold Frame.shuffle at shuffled
  split at shuffled
  next => cases shuffled
  next =>
    refine (fits.lower (List.drop_sublist count frame.stack)).pushCells ?_ shuffled
    intro cell member
    obtain ⟨index, _, isCell⟩ := List.mem_filterMap.mp member
    obtain ⟨moved, isMoved, rfl⟩ := List.mem_map.mp (List.mem_of_getElem? isCell)
    exact fits.stack moved (List.mem_of_mem_take (List.mem_reverse.mp isMoved))

theorem setLocal {slot : Nat} (fits : frame.Fits limits)
    (shallow : depthOf (some type) ≤ limits.depth)
    (stored : frame.setLocal slot type = .ok next) :
    next.Fits limits := by
  obtain ⟨_, same, size_eq⟩ := setLocal_eq_ok stored
  rw [same]
  refine ⟨size_eq.trans fits.size_eq, fits.maxStack_eq, fits.length_le,
    fun other => ?_, fits.stack⟩
  change depthOf (next.localAt other) ≤ limits.depth
  rw [localAt_setLocal stored]
  split
  · exact shallow
  · split
    · exact Nat.zero_le _
    · split
      · exact Nat.zero_le _
      · exact fits.locals other

/-- Every instruction keeps to limits that leave room for the arrays it brings in. -/
theorem effect {instruction : Instruction} (fits : frame.Fits limits)
    (within : instruction.arrayDepth ≤ limits.depth)
    (effect : frame.Effect instruction next) : next.Fits limits := by
  cases effect with
  | @load kind slot _ pushed =>
      exact fits.push (depthOf_getD (fits.locals slot) (by cases kind <;> rfl)) pushed
  | @store kind slot cell popped _ lowers isCell stored =>
      have shallow := fits.stack cell (mem_of_peek? isCell)
      exact (fits.lowers lowers).setLocal
        (depthOf_getD shallow (by cases kind <;> rfl)) stored
  | increment isEmpty stored => exact fits.setLocal (Nat.zero_le _) stored
  | trade notLoad notStore trades =>
      cases trades with
      | pops lowers => exact fits.lowers lowers
      | pushes lowers shallow pushed =>
          exact (fits.lowers lowers).push (shallow _ within fits.stack) pushed
      | moves shuffled => exact fits.shuffle shuffled
      | @copies cell _ isTop pushed =>
          have shallow : depthOf (Cell.anonymous cell.type).type ≤ limits.depth :=
            fits.stack cell (mem_of_peek? isTop)
          exact fits.pushCell shallow pushed
      | leaves _ lowers => exact (fits.lowers lowers).clearStack
      | throws isThrown lowers pushed =>
          have shallow := fits.stack _ (mem_of_peek? isThrown)
          exact (fits.lowers lowers).clearStack.push (depthOf_getD shallow rfl) pushed

theorem execute {position : Nat} {instruction : Instruction} (fits : frame.Fits limits)
    (within : instruction.arrayDepth ≤ limits.depth)
    (executed : frame.execute position instruction = .ok next) : next.Fits limits := by
  obtain ⟨applied, effect, rfl⟩ := execute_eq_ok executed
  exact (fits.effect within effect).congr rfl rfl rfl

/-! ## Given frames -/

/-- One slot may be filled anew. -/
theorem put (fits : frame.Fits limits) (slot : Nat) {held : Option ValueType}
    (shallow : depthOf held ≤ limits.depth) :
    { frame with locals := frame.locals.setIfInBounds slot held }.Fits limits := by
  refine ⟨Array.size_setIfInBounds.trans fits.size_eq, fits.maxStack_eq, fits.length_le,
    fun other => ?_, fits.stack⟩
  have before := fits.locals other
  rw [localAt_eq] at before ⊢
  rw [Array.getElem?_setIfInBounds]
  split
  · split
    · exact shallow
    · exact Nat.zero_le _
  · exact before

/-- The values of a snapshot are resolved to types within the limits. -/
def Within (limits : Limits) (resolve : Resolver)
    (values : List VerificationType) : Prop :=
  ∀ value ∈ values, ∀ held, resolve value = .ok held → depthOf held ≤ limits.depth

variable {resolve : Resolver}

theorem unpackFrom {values : List VerificationType} {count slot stop : Nat}
    (fits : frame.Fits limits) (within : Within limits resolve values)
    (unpacked : frame.unpackFrom resolve count slot values = .ok (stop, next)) :
    next.Fits limits := by
  induction values generalizing frame slot with
  | nil =>
      cases unpacked
      exact fits
  | cons value rest ih =>
      obtain ⟨held, resolved, unpacked⟩ := bind_eq_ok.mp unpacked
      obtain ⟨headWithin, restWithin⟩ := List.forall_mem_cons.mp within
      have stored := fits.put slot (headWithin held resolved)
      dsimp only at unpacked
      split at unpacked
      next => cases unpacked
      next =>
        refine ih ?_ restWithin unpacked
        split
        · exact stored.put (slot + 1) (Nat.zero_le _)
        · exact stored

theorem unpackLocals {values : List VerificationType} {slot : Nat}
    (fits : frame.Fits limits) (within : Within limits resolve values)
    (unpacked : frame.unpackLocals resolve slot values = .ok next) :
    next.Fits limits := by
  obtain ⟨⟨stop, filled⟩, isFilled, ⟨⟩⟩ := bind_eq_ok.mp unpacked
  have filledFits := fits.unpackFrom within isFilled
  refine ⟨Array.size_mapIdx.trans filledFits.size_eq, filledFits.maxStack_eq,
    filledFits.length_le, fun other => ?_, filledFits.stack⟩
  have before := filledFits.locals other
  rw [localAt_eq] at before ⊢
  rw [Array.getElem?_mapIdx]
  cases held : filled.locals[other]? with
  | none => exact Nat.zero_le _
  | some type =>
      rw [held] at before
      rw [Option.map_some, Option.getD_some]
      split
      · exact before
      · exact Nat.zero_le _

theorem pushValues {values : List VerificationType} (fits : frame.Fits limits)
    (within : Within limits resolve values)
    (pushed : frame.pushValues resolve values = .ok next) : next.Fits limits := by
  induction values generalizing frame with
  | nil =>
      cases pushed
      exact fits
  | cons value rest ih =>
      obtain ⟨held, resolved, pushed⟩ := bind_eq_ok.mp pushed
      obtain ⟨headWithin, restWithin⟩ := List.forall_mem_cons.mp within
      cases held with
      | none =>
          dsimp only at pushed
          split at pushed
          next middle isMiddle =>
            exact ih (fits.pushCell (Nat.zero_le _) isMiddle) restWithin pushed
          next => cases pushed
      | some type =>
          dsimp only at pushed
          split at pushed
          next middle isMiddle =>
            exact ih (fits.push (headWithin _ resolved) isMiddle) restWithin pushed
          next => cases pushed

theorem chopLocals {total count : Nat} (fits : frame.Fits limits)
    (chopped : frame.chopLocals total count = .ok next) : next.Fits limits := by
  induction count generalizing frame with
  | zero =>
      cases chopped
      exact fits
  | succ count ih =>
      unfold Frame.chopLocals at chopped
      split at chopped
      next => cases chopped
      next last _ =>
        have empty : depthOf none ≤ limits.depth := Nat.zero_le _
        have emptied := fits.put last empty
        dsimp only at chopped
        split at chopped
        next =>
          refine ih ?_ chopped
          exact (emptied.put (last - 1) empty).congr rfl rfl rfl
        next =>
          refine ih ?_ chopped
          exact emptied.congr rfl rfl rfl

/-- A snapshot whose values are within the limits describes a frame within them. -/
theorem expand {snapshot : Snapshot} (fits : frame.Fits limits)
    (within : Within limits resolve snapshot.values)
    (expanded : frame.expand resolve snapshot = .ok next) : next.Fits limits := by
  cases snapshot with
  | full locals stack =>
      obtain ⟨unpacked, isUnpacked, expanded⟩ := bind_eq_ok.mp expanded
      obtain ⟨pushed, isPushed, ⟨⟩⟩ := bind_eq_ok.mp expanded
      obtain ⟨localsWithin, stackWithin⟩ := List.forall_mem_append.mp within
      have unpackedFits := fits.unpackLocals localsWithin isUnpacked
      exact (unpackedFits.clearStack.pushValues stackWithin isPushed).congr rfl rfl rfl
  | append locals =>
      obtain ⟨unpacked, isUnpacked, ⟨⟩⟩ := bind_eq_ok.mp expanded
      exact (fits.unpackLocals within isUnpacked).clearStack.congr rfl rfl rfl
  | chop count =>
      obtain ⟨chopped, isChopped, ⟨⟩⟩ := bind_eq_ok.mp expanded
      exact (fits.chopLocals isChopped).clearStack.congr rfl rfl rfl
  | same =>
      cases expanded
      exact fits.clearStack.congr rfl rfl rfl
  | sameOneStack value =>
      obtain ⟨pushed, isPushed, ⟨⟩⟩ := bind_eq_ok.mp expanded
      exact (fits.clearStack.pushValues within isPushed).congr rfl rfl rfl

end Fits

end Frame

/-! ## The limits of a method -/

theorem le_foldl_max {numbers : List Nat} {start number : Nat}
    (member : number ∈ start :: numbers) : number ≤ numbers.foldl max start := by
  induction numbers generalizing start number with
  | nil => exact Nat.le_of_eq (List.mem_singleton.mp member)
  | cons head rest ih =>
      rw [List.foldl_cons]
      rcases List.mem_cons.mp member with rfl | member
      · exact Nat.le_trans (Nat.le_max_left number head) (ih (List.mem_cons_self ..))
      · rcases List.mem_cons.mp member with rfl | member
        · exact Nat.le_trans (Nat.le_max_right start number) (ih (List.mem_cons_self ..))
        · exact ih (List.mem_cons_of_mem _ member)

/-- An instruction with a snapshot brings in the arrays that the snapshot lists. -/
theorem Snapshot.valueDepth_le {snapshot : Snapshot} {value : VerificationType}
    (member : value ∈ snapshot.values) :
    Instruction.arrayDepth.valueDepth value ≤
      (Instruction.snapshot snapshot).arrayDepth := by
  cases snapshot with
  | same | chop => cases member
  | sameOneStack only => exact Nat.le_of_eq (congrArg _ (List.mem_singleton.mp member))
  | append locals =>
      exact le_foldl_max (List.mem_cons_of_mem _ (List.mem_map_of_mem member))
  | full locals stack =>
      exact le_foldl_max (List.mem_cons_of_mem _ (List.mem_map_of_mem member))

namespace Body

variable {body : Body}

/-- The limits that a method sets to its frames. -/
def limits (body : Body) : Frame.Limits :=
  ⟨body.code.maxLocals, body.code.maxStack, body.arrayDepth⟩

theorem arrayDepth_le {instruction : Instruction}
    (member : instruction ∈ body.instructions) :
    instruction.arrayDepth ≤ body.limits.depth := by
  apply le_foldl_max
  refine List.mem_cons_of_mem _ (List.mem_append_right _ ?_)
  exact List.mem_map_of_mem (Array.mem_toList_iff.mpr member)

theorem fieldDepth_le {type : FieldType} (member : type ∈ body.descriptor.parameters) :
    Instruction.arrayDepth.fieldDepth type ≤ body.limits.depth := by
  apply le_foldl_max
  exact List.mem_cons_of_mem _ (List.mem_append_left _ (List.mem_map_of_mem member))

theorem depthOf_resolve {value : VerificationType} {held : Option ValueType}
    (resolved : body.resolve value = .ok held) :
    depthOf held ≤ Instruction.arrayDepth.valueDepth value := by
  cases value with
  | uninitialized label =>
      dsimp only [Body.resolve] at resolved
      split at resolved
      next => cases resolved
      next =>
        split at resolved
        next =>
          cases resolved
          exact Nat.zero_le _
        next => cases resolved
  | _ =>
      cases resolved
      exact Nat.le_refl _

theorem fits_entryFrame {entry : Frame} (entered : body.entryFrame = .ok entry) :
    entry.Fits body.limits := by
  unfold Body.entryFrame at entered
  split at entered
  next frame isEntry =>
    cases entered
    refine Frame.entry_induction ?_ ?_ ?_ isEntry
    · refine ⟨Array.size_replicate, rfl, Nat.zero_le _, fun slot => ?_, nofun⟩
      rw [Frame.localAt_eq, Frame.empty, Array.getElem?_replicate]
      split <;> exact Nat.zero_le _
    · rintro before next slot type (⟨owner, rfl⟩ | ⟨field, isGiven, rfl⟩) fits stored
      · exact fits.setLocal (Nat.zero_le _) stored
      · exact fits.setLocal (depthOf_ofField field ▸ fieldDepth_le isGiven) stored
    · intro before count fits
      exact fits.congr rfl rfl rfl
  next => cases entered

/-- The given frames keep to the limits of the method. -/
theorem fits_seeds {seeds : Frames} (seeded : body.seeds = .ok seeds) :
    Query.AllFrames (Frame.Fits body.limits) seeds := by
  obtain ⟨entry, isEntry, seeded⟩ := bind_eq_ok.mp seeded
  obtain ⟨seeding, folded, ⟨⟩⟩ := bind_eq_ok.mp seeded
  have entryFits := fits_entryFrame isEntry
  refine (foldlM_zipIdx_induction (P := fun _ (seeding : Body.Seeding) =>
    seeding.current.Fits body.limits ∧
      Query.AllFrames (Frame.Fits body.limits) seeding.frames)
    ?_ ⟨entryFits, ?_⟩ folded).2
  · intro index instruction before after found fits stepped
    dsimp only [Body.seedAt] at stepped
    split at stepped
    next snapshot =>
      split at stepped
      next frame expanded =>
        cases stepped
        have member : .snapshot snapshot ∈ body.instructions :=
          Array.mem_of_getElem? (by simpa using found)
        have within : Frame.Fits.Within body.limits body.resolve snapshot.values := by
          intro value isValue held resolved
          exact Nat.le_trans (depthOf_resolve resolved)
            (Nat.le_trans (Snapshot.valueDepth_le isValue) (arrayDepth_le member))
        have frameFits := fits.1.expand within expanded
        exact ⟨frameFits, fits.2.put frameFits⟩
      next => cases stepped
    next =>
      cases stepped
      split
      · exact fits
      · exact fits
  · intro position frame there
    rw [(Frames.eq_of_at?_put_replicate there).2]
    exact entryFits

end Body

namespace Query

/-- Frames within the limits of a method stay within them. -/
theorem fits_inductive (hierarchy : Hierarchy) (body : Body) :
    Inductive hierarchy body.instructions (Frame.Fits body.limits) where
  execute found fits executed :=
    fits.execute (Body.arrayDepth_le (Array.mem_of_getElem? found)) executed
  caught fits pushed := fits.clearStack.push (Nat.zero_le _) pushed
  join leftFits rightFits joins := by
    have same := leftFits.size_eq.trans rightFits.size_eq.symm
    refine ⟨(joins.size_eq same).trans leftFits.size_eq,
      joins.maxStack_eq.trans leftFits.maxStack_eq, ?_, fun slot =>
        ?_, fun cell member => ?_⟩
    · have lengths :=
        (joins.stack (R := fun _ _ => True) fun _ _ _ _ => ⟨trivial, trivial⟩).1
      exact lengths.length_eq ▸ leftFits.length_le
    · exact depthOf_mergeTypes (leftFits.locals slot) (rightFits.locals slot)
        (joins.locals same slot)
    · obtain ⟨first, isFirst, second, isSecond, joined⟩ := joins.cells member
      exact depthOf_mergeTypes (leftFits.stack first isFirst)
        (rightFits.stack second isSecond) joined.1

end Query

end LocalTable
