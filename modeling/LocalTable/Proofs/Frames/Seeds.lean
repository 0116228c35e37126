import LocalTable.Proofs.Alike
import LocalTable.Proofs.Frames

/-!
# Frames that are given

The frame at the start of a method and the frames of its snapshots are built up
slot by slot, so the two halves of a wide value stand next to each other in them.
Snapshots are given for pseudo-instructions only.
-/

namespace LocalTable

namespace Frame

variable {frame next : Frame} {maxLocals : Nat}

/-- The frame has the locals of the method, and a wide value has its upper half
behind it. -/
structure Shaped (maxLocals : Nat) (frame : Frame) : Prop where
  size_eq : frame.locals.size = maxLocals
  upper {slot : Nat} {type : ValueType} (held : frame.localAt slot = some type)
    (isWide : type.width = 2) : frame.localAt (slot + 1) = some .top

/-- Below the bound, the halves of wide values come in pairs. -/
structure PairedBelow (frame : Frame) (bound : Nat) : Prop where
  upper {slot : Nat} {type : ValueType} (below : slot < bound)
    (held : frame.localAt slot = some type) (isWide : type.width = 2) :
    slot + 1 < bound ∧ frame.localAt (slot + 1) = some .top
  lower {slot : Nat} (below : slot < bound) (isUpper : frame.localAt slot = some .top) :
    ∃ before type, slot = before + 1 ∧ frame.localAt before = some type ∧ type.width = 2

/-- The frame holds nothing but the slots that are described. -/
structure Described (maxLocals : Nat) (frame : Frame) : Prop where
  size_eq : frame.locals.size = maxLocals
  paired : frame.PairedBelow frame.described
  beyond {slot : Nat} (isBeyond : frame.described ≤ slot) : frame.localAt slot = none

theorem Described.shaped (isDescribed : frame.Described maxLocals) :
    frame.Shaped maxLocals := by
  refine ⟨isDescribed.size_eq, fun {slot type} held isWide => ?_⟩
  apply (isDescribed.paired.upper ?_ held isWide).2
  apply Nat.lt_of_not_le
  intro isBeyond
  rw [isDescribed.beyond isBeyond] at held
  cases held

theorem PairedBelow.of_locals {bound : Nat} (paired : frame.PairedBelow bound)
    (same : next.locals = frame.locals) : next.PairedBelow bound := by
  have localAt (slot : Nat) : next.localAt slot = frame.localAt slot := by
    rw [Frame.localAt, same, Frame.localAt]
  constructor
  · intro slot type below held isWide
    rw [localAt] at held ⊢
    exact paired.upper below held isWide
  · intro slot below isUpper
    simp only [localAt] at isUpper ⊢
    exact paired.lower below isUpper

theorem PairedBelow.zero (frame : Frame) : frame.PairedBelow 0 :=
  ⟨nofun, nofun⟩

theorem width_getD_eq (type : Option ValueType) :
    (type.map ValueType.width).getD 1 = 1 ∨ (type.map ValueType.width).getD 1 = 2 := by
  cases type with
  | none => exact .inl rfl
  | some type => exact type.width_eq_one_or_two

/-- One more value behind the bound, with its upper half if it is wide. -/
theorem PairedBelow.extend {bound width : Nat} (paired : frame.PairedBelow bound)
    (type : Option ValueType) (isWidth : width = (type.map ValueType.width).getD 1)
    (isValue : type ≠ some .top)
    (same : ∀ slot < bound, next.localAt slot = frame.localAt slot)
    (stored : next.localAt bound = type)
    (upper : width = 2 → next.localAt (bound + 1) = some .top) :
    next.PairedBelow (bound + width) := by
  have oneOrTwo : width = 1 ∨ width = 2 := isWidth ▸ width_getD_eq type
  constructor
  · intro slot held_type below held isWide
    rcases Nat.lt_trichotomy slot bound with before | rfl | behind
    · rw [same slot before] at held
      obtain ⟨inBounds, isUpper⟩ := paired.upper before held isWide
      exact ⟨by omega, (same _ inBounds).trans isUpper⟩
    · rw [stored] at held
      rw [held] at isWidth
      have isTwo : width = 2 := isWidth.trans isWide
      exact ⟨by omega, upper isTwo⟩
    · have isTwo : width = 2 := by omega
      obtain rfl : slot = bound + 1 := by omega
      rw [upper isTwo] at held
      cases held
      cases isWide
  · intro slot below isUpper
    rcases Nat.lt_trichotomy slot bound with before | rfl | behind
    · rw [same slot before] at isUpper
      obtain ⟨lower, lowerType, rfl, held, isWide⟩ := paired.lower before isUpper
      exact ⟨lower, lowerType, rfl, (same lower (by omega)).trans held, isWide⟩
    · exact absurd (stored.symm.trans isUpper) isValue
    · have isTwo : width = 2 := by omega
      obtain rfl : slot = bound + 1 := by omega
      cases type with
      | none => exact absurd (isWidth.symm.trans isTwo) (by decide)
      | some type => exact ⟨bound, type, rfl, stored, isWidth.symm.trans isTwo⟩

/-! ## The first frame -/

theorem ofField_ne_top (type : FieldType) : ValueType.ofField type ≠ .top := by
  cases type with
  | base type => cases type <;> exact nofun
  | ref type => exact nofun

/-- A value that is stored behind all others keeps the frame in order. -/
theorem PairedBelow.setLocal {slot : Nat} {type : ValueType}
    (paired : frame.PairedBelow slot)
    (beyond : ∀ other, slot ≤ other → frame.localAt other = none) (isValue : type ≠ .top)
    (stored : frame.setLocal slot type = .ok next) :
    next.PairedBelow (slot + type.width) ∧
      ∀ other, slot + type.width ≤ other → next.localAt other = none := by
  have localAt := localAt_setLocal_into_empty (beyond slot (Nat.le_refl slot)) stored
  have oneOrTwo := type.width_eq_one_or_two
  constructor
  · refine paired.extend (some type) rfl (by simpa using isValue)
      (fun other below => ?_) ?_ ?_
    · rw [localAt, if_neg (by omega), if_neg (by omega)]
    · rw [localAt, if_pos rfl]
    · intro isWide
      rw [localAt, if_neg (by omega), if_pos ⟨rfl, isWide⟩]
  · intro other isBeyond
    rw [localAt, if_neg (by omega), if_neg (by omega)]
    exact beyond other (by omega)

theorem described_of_storeParameters {types : List FieldType} {slot stop : Nat}
    (paired : frame.PairedBelow slot)
    (beyond : ∀ other, slot ≤ other → frame.localAt other = none)
    (stored : frame.storeParameters slot types = .ok (stop, next)) :
    next.locals.size = frame.locals.size ∧ next.PairedBelow stop ∧
      ∀ other, stop ≤ other → next.localAt other = none := by
  induction types generalizing frame slot with
  | nil =>
      cases stored
      exact ⟨rfl, paired, beyond⟩
  | cons type rest ih =>
      obtain ⟨_, middle, first, stored⟩ := storeParameters_cons_iff.mp stored
      obtain ⟨pairedMiddle, beyondMiddle⟩ :=
        paired.setLocal beyond (ofField_ne_top type) first
      obtain ⟨size_eq, pairedNext, beyondNext⟩ := ih pairedMiddle beyondMiddle stored
      exact ⟨size_eq.trans (setLocal_eq_ok first).2.2, pairedNext, beyondNext⟩

theorem localAt_empty (maxLocals maxStack slot : Nat) :
    (empty maxLocals maxStack).localAt slot = none := by
  simp only [localAt_eq, empty, Array.getElem?_replicate]
  split <;> rfl

/-- The frame at the start of a method holds the parameters and nothing else. -/
theorem described_entry {receiver : Option BinaryName} {descriptor : MethodDescriptor}
    {maxStack : Nat}
    (entered : entry receiver descriptor maxLocals maxStack = .ok frame) :
    frame.Described maxLocals := by
  obtain ⟨stop, stored, isStored, rfl⟩ := storeParameters_of_entry entered
  obtain ⟨size_eq, paired, beyond⟩ := described_of_storeParameters (.zero _)
    (fun other _ => localAt_empty maxLocals maxStack other) isStored
  exact ⟨size_eq.trans Array.size_replicate, paired.of_locals rfl, beyond _⟩

/-! ## Snapshots -/

/-- No value of a snapshot is resolved to an upper half. -/
def Honest (resolve : Resolver) : Prop :=
  ∀ value, resolve value ≠ .ok (some .top)

variable {resolve : Resolver}

theorem pairedBelow_of_unpackFrom {values : List VerificationType} {count slot stop : Nat}
    (honest : Honest resolve) (paired : frame.PairedBelow slot)
    (unpacked : frame.unpackFrom resolve count slot values = .ok (stop, next)) :
    next.locals.size = frame.locals.size ∧ next.PairedBelow stop := by
  induction values generalizing frame slot with
  | nil =>
      cases unpacked
      exact ⟨rfl, paired⟩
  | cons value rest ih =>
      obtain ⟨type, resolved, unpacked⟩ := bind_eq_ok.mp unpacked
      dsimp only at unpacked
      split at unpacked
      next => cases unpacked
      next fits =>
        have isValue : type ≠ some .top := by
          rintro rfl
          exact honest value resolved
        have inBounds : slot < frame.locals.size := by
          have oneOrTwo := width_getD_eq type
          omega
        refine (ih ?_ unpacked).imp_left fun size_eq => size_eq.trans ?_
        · refine paired.extend type rfl isValue (fun other below => ?_) ?_
            fun isWide => ?_
          · simp only [localAt_eq]
            split <;> simp only [Array.getElem?_setIfInBounds] <;> grind
          · simp only [localAt_eq]
            split <;> simp only [Array.getElem?_setIfInBounds,
              Array.size_setIfInBounds] <;> grind
          · rw [isWide] at fits
            simp only [localAt_eq, isWide, if_true, Array.getElem?_setIfInBounds,
              Array.size_setIfInBounds]
            grind
        · dsimp only
          split <;> simp

theorem described_of_unpackLocals {values : List VerificationType} {slot : Nat}
    (honest : Honest resolve) (size_eq : frame.locals.size = maxLocals)
    (paired : frame.PairedBelow slot)
    (unpacked : frame.unpackLocals resolve slot values = .ok next) :
    next.Described maxLocals := by
  obtain ⟨⟨stop, filled⟩, isFilled, ⟨⟩⟩ := bind_eq_ok.mp unpacked
  obtain ⟨sameSize, pairedFilled⟩ := pairedBelow_of_unpackFrom honest paired isFilled
  have localAt (slot : Nat) :
      Frame.localAt { filled with
        locals := filled.locals.mapIdx fun index type =>
          if index < stop then type else none
        described := stop } slot = if slot < stop then filled.localAt slot else none := by
    simp only [localAt_eq, Array.getElem?_mapIdx]
    cases filled.locals[slot]? <;> simp
  refine ⟨?_, ⟨fun {slot type} below held isWide => ?_,
    fun {slot} below isUpper => ?_⟩, ?_⟩
  · simpa using sameSize.trans size_eq
  · rw [localAt, if_pos below] at held
    obtain ⟨inBounds, isUpper⟩ := pairedFilled.upper below held isWide
    exact ⟨inBounds, by rw [localAt, if_pos inBounds, isUpper]⟩
  · rw [localAt, if_pos below] at isUpper
    obtain ⟨lower, type, rfl, held, isWide⟩ := pairedFilled.lower below isUpper
    exact ⟨lower, type,
      rfl, by rw [localAt, if_pos (Nat.lt_of_succ_lt below), held], isWide⟩
  · intro slot isBeyond
    rw [localAt, if_neg (Nat.not_lt.mpr isBeyond)]

/-- Pushing changes nothing but the stack. -/
theorem pushValues_eq_ok {values : List VerificationType}
    (pushed : frame.pushValues resolve values = .ok next) :
    next.locals = frame.locals ∧ next.described = frame.described := by
  induction values generalizing frame with
  | nil =>
      cases pushed
      exact ⟨rfl, rfl⟩
  | cons value rest ih =>
      obtain ⟨type, _, pushed⟩ := bind_eq_ok.mp pushed
      have onward (middle : Frame) (locals_eq : middle.locals = frame.locals)
          (described_eq : middle.described = frame.described)
          (pushedRest : middle.pushValues resolve rest = .ok next) :
          next.locals = frame.locals ∧ next.described = frame.described :=
        ⟨(ih pushedRest).1.trans locals_eq, (ih pushedRest).2.trans described_eq⟩
      cases type with
      | none =>
          dsimp only at pushed
          split at pushed
          next middle isMiddle =>
            simp only [pushCell] at isMiddle
            split at isMiddle <;> cases isMiddle
            exact onward { frame with stack := .anonymous none :: frame.stack }
              rfl rfl pushed
          next => cases pushed
      | some type =>
          dsimp only at pushed
          split at pushed
          next middle isMiddle =>
            have isPushed := (push_eq_ok isMiddle).2
            exact onward middle (by rw [isPushed]) (by rw [isPushed]) pushed
          next => cases pushed

theorem Described.of_locals (isDescribed : frame.Described maxLocals)
    (same : next.locals = frame.locals ∧ next.described = frame.described) :
    next.Described maxLocals := by
  refine ⟨same.1 ▸ isDescribed.size_eq, ?_, fun {slot} isBeyond => ?_⟩
  · rw [same.2]
    exact isDescribed.paired.of_locals same.1
  · rw [localAt, same.1]
    exact isDescribed.beyond (same.2 ▸ isBeyond)

/-- Emptying the last slots of a frame keeps the halves of wide values together. -/
theorem Described.truncate (stop : Nat) (isDescribed : frame.Described maxLocals)
    (size_eq : next.locals.size = frame.locals.size) (isStop : next.described = stop)
    (fewer : stop ≤ frame.described)
    (localAt : ∀ slot,
      next.localAt slot = if slot < stop then frame.localAt slot else none)
    (whole : frame.localAt stop = some .top → stop = 0) : next.Described maxLocals := by
  refine ⟨size_eq.trans isDescribed.size_eq,
    ⟨fun {slot type} below held isWide => ?_, fun {slot} below isUpper => ?_⟩, ?_⟩
  · rw [isStop] at below ⊢
    rw [localAt, if_pos below] at held
    have isUpper :=
      (isDescribed.paired.upper (Nat.lt_of_lt_of_le below fewer) held isWide).2
    have inBounds : slot + 1 < stop := by
      apply Nat.lt_of_le_of_ne below
      rintro rfl
      exact Nat.succ_ne_zero slot (whole isUpper)
    exact ⟨inBounds, by rw [localAt, if_pos inBounds, isUpper]⟩
  · rw [isStop] at below
    rw [localAt, if_pos below] at isUpper
    obtain ⟨lower, type, rfl, held, isWide⟩ :=
      isDescribed.paired.lower (Nat.lt_of_lt_of_le below fewer) isUpper
    exact ⟨lower, type,
      rfl, by rw [localAt, if_pos (Nat.lt_of_succ_lt below), held], isWide⟩
  · intro slot isBeyond
    rw [localAt, if_neg (Nat.not_lt.mpr (isStop ▸ isBeyond))]

theorem described_of_chopLocals {total count : Nat}
    (isDescribed : frame.Described maxLocals)
    (chopped : frame.chopLocals total count = .ok next) : next.Described maxLocals := by
  induction count generalizing frame with
  | zero =>
      cases chopped
      exact isDescribed
  | succ count ih =>
      unfold chopLocals at chopped
      split at chopped
      next => cases chopped
      next last described_eq =>
        have isLast {slot : Nat} (isBeyond : last < slot) : frame.localAt slot = none :=
          isDescribed.beyond (described_eq ▸ isBeyond)
        dsimp only at chopped
        split at chopped
        next isUpper =>
          obtain ⟨below, rfl⟩ := Nat.exists_eq_add_one_of_ne_zero (Nat.ne_of_gt isUpper.2)
          refine ih (isDescribed.truncate below (by simp) rfl (by omega)
            (fun slot => ?_) ?_) chopped
          · simp only [localAt_eq, Array.getElem?_setIfInBounds,
              Array.size_setIfInBounds] at isLast ⊢
            grind
          · intro alsoUpper
            obtain ⟨_, type, ⟨⟩, held, isWide⟩ :=
              isDescribed.paired.lower (by omega) isUpper.1
            cases alsoUpper.symm.trans held
            cases isWide
        next isWhole =>
          refine ih (isDescribed.truncate last (by simp) rfl (by omega)
            (fun slot => ?_) ?_) chopped
          · simp only [localAt_eq, Array.getElem?_setIfInBounds] at isLast ⊢
            grind
          · intro isUpper
            exact Nat.eq_zero_of_not_pos fun positive => isWhole ⟨isUpper, positive⟩

/-- A snapshot turns one frame that holds nothing but what is described into another
one. -/
theorem described_of_expand {snapshot : Snapshot} (honest : Honest resolve)
    (isDescribed : frame.Described maxLocals)
    (expanded : frame.expand resolve snapshot = .ok next) : next.Described maxLocals := by
  cases snapshot with
  | full locals stack =>
      obtain ⟨unpacked, isUnpacked, expanded⟩ := bind_eq_ok.mp expanded
      obtain ⟨pushed, isPushed, ⟨⟩⟩ := bind_eq_ok.mp expanded
      have unpackedDescribed :=
        described_of_unpackLocals honest isDescribed.size_eq (.zero frame) isUnpacked
      obtain ⟨locals_eq, described_eq⟩ := pushValues_eq_ok isPushed
      exact unpackedDescribed.of_locals ⟨locals_eq, described_eq⟩
  | append locals =>
      obtain ⟨unpacked, isUnpacked, ⟨⟩⟩ := bind_eq_ok.mp expanded
      have unpackedDescribed :=
        described_of_unpackLocals honest isDescribed.size_eq isDescribed.paired isUnpacked
      exact unpackedDescribed.of_locals ⟨rfl, rfl⟩
  | chop count =>
      obtain ⟨chopped, isChopped, ⟨⟩⟩ := bind_eq_ok.mp expanded
      exact (described_of_chopLocals isDescribed isChopped).of_locals ⟨rfl, rfl⟩
  | same =>
      cases expanded
      exact isDescribed.of_locals ⟨rfl, rfl⟩
  | sameOneStack value =>
      obtain ⟨pushed, isPushed, ⟨⟩⟩ := bind_eq_ok.mp expanded
      obtain ⟨locals_eq, described_eq⟩ := pushValues_eq_ok isPushed
      exact isDescribed.of_locals ⟨locals_eq, described_eq⟩

end Frame

/-! ## All given frames -/

theorem Body.honest_resolve (body : Body) : Frame.Honest body.resolve := by
  intro value resolved
  cases value with
  | uninitialized label =>
      dsimp only [Body.resolve] at resolved
      split at resolved
      · cases resolved
      · split at resolved <;> cases resolved
  | _ => cases resolved

/-- What is known when the instructions before a position have been searched for
snapshots. -/
structure Body.SeededUpTo (body : Body) (position : Nat)
    (seeding : Body.Seeding) : Prop where
  size_eq : seeding.frames.size = body.instructions.size
  current : seeding.current.Described body.code.maxLocals
  next_le : seeding.next ≤ position
  pseudo {other : Nat} {instruction : Instruction} (isNext : seeding.next ≤ other)
    (before : other < position) (found : body.instructions[other]? = some instruction) :
    instruction.isPseudo = true
  described {other : Nat} {frame : Frame}
    (there : seeding.frames.at? other = some frame) :
    frame.Described body.code.maxLocals
  sites {other : Nat} {instruction : Instruction}
    (isFramed : (seeding.frames.at? other).isSome = true)
    (found : body.instructions[other]? = some instruction) :
    other = 0 ∨ instruction.isPseudo = true

theorem Body.SeededUpTo.seedAt {body : Body} {position : Nat}
    {before after : Body.Seeding} {instruction : Instruction}
    (seeded : body.SeededUpTo position before)
    (found : body.instructions[position]? = some instruction)
    (stepped : body.seedAt before instruction position = .ok after) :
    body.SeededUpTo (position + 1) after := by
  unfold Body.seedAt at stepped
  split at stepped
  next snapshot =>
    split at stepped
    next frame expanded =>
      cases stepped
      have isDescribed := Frame.described_of_expand body.honest_resolve
        seeded.current expanded
      refine ⟨(Frames.size_put ..).trans seeded.size_eq, isDescribed,
        Nat.le_refl _, ?_, ?_, ?_⟩
      · intro other _ isNext before
        exact absurd before (Nat.not_lt.mpr isNext)
      · intro other held there
        rw [Frames.at?_put] at there
        split at there
        next =>
          cases there
          exact isDescribed
        next => exact seeded.described there
      · intro other otherInstruction isFramed foundOther
        rw [Frames.at?_put] at isFramed
        split at isFramed
        next same =>
          -- From the place of the snapshot on, everything up to it is a
          -- pseudo-instruction.
          obtain ⟨rfl, _⟩ := same
          rcases Nat.lt_or_eq_of_le seeded.next_le with before | same
          · exact .inr (seeded.pseudo (Nat.le_refl _) before foundOther)
          · rw [same, found] at foundOther
            cases foundOther
            exact .inr rfl
        next => exact seeded.sites isFramed foundOther
    next => cases stepped
  next =>
    cases stepped
    split
    next isPseudo =>
      refine ⟨seeded.size_eq, seeded.current, Nat.le_succ_of_le seeded.next_le, ?_,
        seeded.described, seeded.sites⟩
      intro other otherInstruction isNext before foundOther
      rcases Nat.lt_succ_iff_lt_or_eq.mp before with before | rfl
      · exact seeded.pseudo isNext before foundOther
      · cases found.symm.trans foundOther
        exact isPseudo
    next =>
      refine ⟨seeded.size_eq, seeded.current, Nat.le_refl _, ?_,
        seeded.described, seeded.sites⟩
      intro other _ isNext before
      exact absurd before (Nat.not_lt.mpr isNext)

/-- The given frames have the right shape, and apart from the first one they stand
at pseudo-instructions. -/
theorem Body.seeds_spec {body : Body} {seeds : Frames} (seeded : body.seeds = .ok seeds) :
    seeds.size = body.instructions.size ∧
      Query.AllFrames (Frame.Shaped body.code.maxLocals) seeds ∧
      ∀ position instruction, (seeds.at? position).isSome = true →
        body.instructions[position]? = some instruction →
        position = 0 ∨ instruction.isPseudo = true := by
  obtain ⟨entry, isEntry, seeded⟩ := bind_eq_ok.mp seeded
  obtain ⟨seeding, folded, ⟨⟩⟩ := bind_eq_ok.mp seeded
  have entryDescribed : entry.Described body.code.maxLocals := by
    unfold Body.entryFrame at isEntry
    split at isEntry
    next frame entered =>
      cases isEntry
      exact Frame.described_entry entered
    next => cases isEntry
  have done : body.SeededUpTo (0 + body.instructions.toList.length) seeding := by
    refine foldlM_zipIdx_induction ?_ ?_ folded
    · intro index instruction before after found seeded stepped
      rw [Nat.zero_add] at seeded stepped ⊢
      exact seeded.seedAt (by simpa using found) stepped
    · refine ⟨(Frames.size_put ..).trans Array.size_replicate, entryDescribed,
        Nat.le_refl _, ?_, ?_, ?_⟩
      · intro other _ _ before
        cases before
      · intro other frame there
        rw [(Frames.eq_of_at?_put_replicate there).2]
        exact entryDescribed
      · intro other instruction isFramed _
        obtain ⟨frame, there⟩ := Option.isSome_iff_exists.mp isFramed
        exact .inl (Frames.eq_of_at?_put_replicate there).1
  exact ⟨done.size_eq, fun position frame there => (done.described there).shaped,
    fun position instruction isFramed found => done.sites isFramed found⟩

end LocalTable
