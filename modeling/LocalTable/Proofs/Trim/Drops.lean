import LocalTable.Proofs.Trim.Exits

/-!
# What trimming empties

From the end of a block, trimming goes back as long as it empties something.  On its way
it empties each slot that the block supplies at its end, that no target keeps, and that
has not been live since; with the lower half of a wide value goes the upper one.  This
says exactly what a walk back through a block empties.  So a slot that trimming has
emptied was dropped by the end of some block, or is the upper half of a value that was,
and a slot that the end of a block drops is emptied, if no other walk comes in from
behind.
-/

namespace LocalTable

/-! ## Emptying several slots -/

namespace Frame

variable {frame : Frame} {slot other : Nat}

/-- The slot holds a value that takes the next slot as well. -/
def HoldsWide (frame : Frame) (slot : Nat) : Prop :=
  ∃ type, frame.localAt slot = some type ∧ type.width = 2

theorem any_width_iff :
    (frame.localAt slot).any (·.width = 2) = true ↔ frame.HoldsWide slot := by
  simp [HoldsWide, Option.any_eq_true]

/-- No wide value begins in the upper half of another one. -/
def WidesApart (frame : Frame) : Prop :=
  ∀ slot, frame.HoldsWide slot → ¬frame.HoldsWide (slot + 1)

theorem holdsWide_removeLocal (apart : frame.WidesApart) :
    (frame.removeLocal slot).HoldsWide other ↔ frame.HoldsWide other ∧ other ≠ slot := by
  simp only [HoldsWide, localAt_removeLocal, any_width_iff]
  constructor
  · rintro ⟨type, held, isWide⟩
    split at held
    next => cases held
    next notEmptied => exact ⟨⟨type, held, isWide⟩, fun same => notEmptied (.inl same)⟩
  · rintro ⟨⟨type, held, isWide⟩, differ⟩
    refine ⟨type, ?_, isWide⟩
    rw [if_neg, held]
    rintro (same | ⟨rfl, lowerWide⟩)
    · exact differ same
    · exact apart slot lowerWide ⟨type, held, isWide⟩

theorem WidesApart.removeLocal (apart : frame.WidesApart) :
    (frame.removeLocal slot).WidesApart := by
  intro other isWide upperWide
  rw [holdsWide_removeLocal apart] at isWide upperWide
  exact apart other isWide.1 upperWide.1

theorem localAt_removeLocal_eq_none_iff :
    (frame.removeLocal slot).localAt other = none ↔
      frame.localAt other = none ∨ other = slot ∨ other = slot + 1 ∧
      frame.HoldsWide slot := by
  rw [← any_width_iff, localAt_removeLocal]
  split
  next emptied => simp [emptied]
  next notEmptied => simp [notEmptied]

theorem localAt_foldl_removeLocal_eq_none_iff {slots : List Nat}
    (apart : frame.WidesApart) :
    (slots.foldl Frame.removeLocal frame).localAt other = none ↔
    frame.localAt other = none ∨
      ∃ slot ∈ slots, other = slot ∨ other = slot + 1 ∧ frame.HoldsWide slot := by
  induction slots generalizing frame with
  | nil => simp
  | cons first rest ih =>
      rw [List.foldl_cons, ih apart.removeLocal,
        localAt_removeLocal_eq_none_iff, or_assoc, List.exists_mem_cons_iff]
      simp only [holdsWide_removeLocal apart]
      -- The first slot is empty if it comes again, and its upper half is too.
      grind

end Frame

namespace Liveness

variable {liveness : Liveness} {slot position last : Nat}

/-- The slot is not live from the one position up to the other. -/
def DeadFrom (liveness : Liveness) (slot position last : Nat) : Prop :=
  ∀ between, position ≤ between → between ≤ last → slot ∉ liveness.before between

theorem deadFrom_self : liveness.DeadFrom slot last last ↔
    slot ∉ liveness.before last := by
  constructor
  · intro dead
    exact dead last (Nat.le_refl last) (Nat.le_refl last)
  · intro notLive between after before
    rwa [Nat.le_antisymm before after]

theorem deadFrom_succ (le : position ≤ last + 1) :
    liveness.DeadFrom slot position (last + 1) ↔
    slot ∉ liveness.before (last + 1) ∧ liveness.DeadFrom slot position last := by
  constructor
  · intro dead
    refine ⟨dead (last + 1) le (Nat.le_refl _), ?_⟩
    intro between after before
    exact dead between after (Nat.le_succ_of_le before)
  · rintro ⟨notLive, dead⟩ between after before
    rcases Nat.le_succ_iff.mp before with before | rfl
    · exact dead between after before
    · exact notLive

end Liveness

namespace Frames

/-- The slot holds a value that takes the next slot as well. -/
def WideAt (frames : Frames) (position slot : Nat) : Prop :=
  ∃ type, frames.localAt position slot = some type ∧ type.width = 2

/-- A walk back from the last position, with slots that are unused there, comes to the
position: it meets no entry, and on the way there it finds something to empty at each
position. -/
structure WalksTo (flow : Flow) (liveness : Liveness) (frames : Frames)
    (unused : Nat → Prop) (last position : Nat) : Prop where
  le : position ≤ last
  positive : 0 < position
  inside : ∀ between, position ≤ between → between ≤ last → between ∉ flow.entries
  empties : ∀ between, position < between → between ≤ last →
    ∃ slot, unused slot ∧ liveness.DeadFrom slot between last ∧
      (frames.localAt between slot).isSome = true

/-- The walk empties the slot at the position: the slot is unused and dead since, or
holds the upper half of a value in such a slot. -/
structure Empties (flow : Flow) (liveness : Liveness) (frames : Frames)
    (unused : Nat → Prop) (last position slot : Nat) : Prop where
  walks : frames.WalksTo flow liveness unused last position
  exists_idle : ∃ idle, unused idle ∧ liveness.DeadFrom idle position last ∧
    (slot = idle ∨ slot = idle + 1 ∧ frames.WideAt position idle)

variable {flow : Flow} {liveness : Liveness} {frames other : Frames}
  {unused supplied : Nat → Prop} {last position slot : Nat}

theorem WalksTo.mono (walks : frames.WalksTo flow liveness unused last position)
    (held : ∀ between ≤ last, ∀ slot type, frames.localAt between slot = some type →
      other.localAt between slot = some type) (includes : ∀ slot, unused slot →
        supplied slot) :
    other.WalksTo flow liveness supplied last position where
  le := walks.le
  positive := walks.positive
  inside := walks.inside
  empties := by
    intro between after before
    rcases walks.empties between after before with ⟨slot, isUnused, dead, isHeld⟩
    rcases Option.isSome_iff_exists.mp isHeld with ⟨type, isHeld⟩
    have isHeld := held between before slot type isHeld
    exact ⟨slot, includes slot isUnused, dead,
      Option.isSome_iff_exists.mpr ⟨type, isHeld⟩⟩

theorem WalksTo.upTo {between : Nat}
    (walks : frames.WalksTo flow liveness unused last position)
    (after : position ≤ between) (before : between ≤ last) :
    frames.WalksTo flow liveness unused last between where
  le := before
  positive := Nat.lt_of_lt_of_le walks.positive after
  inside := fun other otherAfter => walks.inside other (Nat.le_trans after otherAfter)
  empties := fun other otherAfter =>
    walks.empties other (Nat.lt_of_le_of_lt after otherAfter)

theorem Empties.mono (empties : frames.Empties flow liveness unused last position slot)
    (held : ∀ between ≤ last, ∀ slot type, frames.localAt between slot = some type →
      other.localAt between slot = some type) (includes : ∀ slot, unused slot →
        supplied slot) :
    other.Empties flow liveness supplied last position slot := by
  rcases empties with ⟨walks, idle, isUnused, dead, isSlot⟩
  refine ⟨walks.mono held includes, idle, includes idle isUnused, dead,
    isSlot.imp_right ?_⟩
  rintro ⟨isUpper, type, isHeld, isWide⟩
  exact ⟨isUpper, type, held position walks.le idle type isHeld, isWide⟩

theorem empties_self (positive : 0 < last) (notEntry : last ∉ flow.entries) :
    frames.Empties flow liveness unused last last slot ↔
      ∃ idle, unused idle ∧ idle ∉ liveness.before last ∧
        (slot = idle ∨ slot = idle + 1 ∧ frames.WideAt last idle) := by
  constructor
  · rintro ⟨_, idle, isUnused, dead, isSlot⟩
    exact ⟨idle, isUnused, Liveness.deadFrom_self.mp dead, isSlot⟩
  · rintro ⟨idle, isUnused, notLive, isSlot⟩
    refine ⟨⟨Nat.le_refl last, positive, ?_, ?_⟩, idle, isUnused,
      Liveness.deadFrom_self.mpr notLive, isSlot⟩
    · intro between after before
      rwa [Nat.le_antisymm before after]
    · intro between after before
      exact absurd after (Nat.not_lt.mpr before)

/-- A walk goes on with the slots that are not live where it is, if any of them is held
there. -/
theorem empties_succ (le : position ≤ last) :
    frames.Empties flow liveness unused (last + 1) position slot ↔
      last + 1 ∉ flow.entries ∧
      (∃ idle, unused idle ∧ idle ∉ liveness.before (last + 1) ∧
        (frames.localAt (last + 1) idle).isSome = true) ∧
      frames.Empties flow liveness (fun idle => unused idle ∧
        idle ∉ liveness.before (last + 1)) last position slot := by
  have le_succ : position ≤ last + 1 := Nat.le_succ_of_le le
  constructor
  · rintro ⟨walks, idle, isUnused, dead, isSlot⟩
    rcases walks.empties (last + 1) (Nat.lt_succ_of_le le) (Nat.le_refl _) with
      ⟨held, heldUnused, heldDead, isHeld⟩
    have ⟨notLive, deadBefore⟩ := (Liveness.deadFrom_succ le_succ).mp dead
    refine ⟨walks.inside _ le_succ (Nat.le_refl _),
      ⟨held, heldUnused, Liveness.deadFrom_self.mp heldDead, isHeld⟩,
      ⟨le, walks.positive, ?_, ?_⟩, idle, ⟨isUnused, notLive⟩, deadBefore, isSlot⟩
    · intro between after before
      exact walks.inside between after (Nat.le_succ_of_le before)
    · intro between after before
      have before_succ := Nat.le_succ_of_le before
      rcases walks.empties between after before_succ with
        ⟨held, heldUnused, heldDead, isHeld⟩
      have ⟨heldNotLive, heldDead⟩ := (Liveness.deadFrom_succ before_succ).mp heldDead
      exact ⟨held, ⟨heldUnused, heldNotLive⟩, heldDead, isHeld⟩
  · rintro ⟨notEntry, ⟨held, heldUnused, heldNotLive, isHeld⟩, walks, idle,
      ⟨isUnused, notLive⟩, dead, isSlot⟩
    refine ⟨⟨le_succ, walks.positive, ?_, ?_⟩, idle, isUnused,
      (Liveness.deadFrom_succ le_succ).mpr ⟨notLive, dead⟩, isSlot⟩
    · intro between after before
      rcases Nat.le_succ_iff.mp before with before | rfl
      · exact walks.inside between after before
      · exact notEntry
    · intro between after before
      rcases Nat.le_succ_iff.mp before with before | rfl
      · rcases walks.empties between after before with
          ⟨slot, ⟨slotUnused, slotNotLive⟩, dead, isHeld⟩
        exact ⟨slot, slotUnused,
          (Liveness.deadFrom_succ (Nat.le_succ_of_le before)).mpr
            ⟨slotNotLive, dead⟩, isHeld⟩
      · exact ⟨held, heldUnused, Liveness.deadFrom_self.mpr heldNotLive, isHeld⟩

theorem Empties.localAt_eq_none
    (empties : frames.Empties flow liveness unused (last + 1) position slot)
    (allEmpty : ∀ idle, unused idle → idle ∉ liveness.before (last + 1) →
      frames.localAt (last + 1) idle = none) : frames.localAt position slot = none := by
  rcases Nat.eq_or_lt_of_le empties.walks.le with rfl | earlier
  · have notEntry := empties.walks.inside _ empties.walks.le (Nat.le_refl _)
    rcases (empties_self (Nat.succ_pos last) notEntry).mp empties with
      ⟨idle, isUnused, notLive, rfl | ⟨_, type, held, _⟩⟩
    · exact allEmpty slot isUnused notLive
    · cases (allEmpty idle isUnused notLive).symm.trans held
  · rcases (empties_succ (Nat.le_of_lt_succ earlier)).mp empties with
      ⟨_, ⟨idle, isUnused, notLive, isHeld⟩, _⟩
    rw [allEmpty idle isUnused notLive] at isHeld
    cases isHeld

/-! ## Walks -/

theorem localAt_of_at? {frame : Frame} (there : frames.at? position = some frame)
    (slot : Nat) :
    frames.localAt position slot = frame.localAt slot := by
  rw [localAt, there, Option.bind_some]

theorem empties_put_iff {kept : Frame} {changed : Nat} (behind : last < changed) :
    (frames.put changed kept).Empties flow liveness unused last position slot ↔
      frames.Empties flow liveness unused last position slot := by
  have same (between : Nat) (before : between ≤ last) (slot : Nat) :
      (frames.put changed kept).localAt between slot = frames.localAt between slot :=
    localAt_put_of_ne (Nat.ne_of_lt (Nat.lt_of_le_of_lt before behind)) slot
  constructor
  · intro empties
    refine empties.mono ?_ fun _ => id
    intro between before slot type held
    rwa [← same between before]
  · intro empties
    refine empties.mono ?_ fun _ => id
    intro between before slot type held
    rwa [same between before]

theorem TrimmedTo.widesApart {original : Frames} {maxLocals : Nat} {kept : Frame}
    (shaped : Query.AllFrames (Frame.Shaped maxLocals) original)
    (trimmed : original.TrimmedTo liveness frames)
    (there : frames.at? position = some kept) :
    kept.WidesApart := by
  rcases trimmed.exists_original there with ⟨frame, isOriginal, frameTrimmed⟩
  have ofKept {slot : Nat} {type : ValueType} (held : kept.localAt slot = some type) :
      frame.localAt slot = some type := by
    rcases frameTrimmed.locals slot with same | isEmpty
    · exact same.symm.trans held
    · cases isEmpty.symm.trans held
  rintro slot ⟨type, held, isWide⟩ ⟨upper, upperHeld, upperWide⟩
  have isUpper := (shaped _ _ isOriginal).upper (ofKept held) isWide
  cases isUpper.symm.trans (ofKept upperHeld)
  cases upperWide

/-- Emptying the idle slots of one position and walking on from there empties what the
walk from that position does. -/
theorem localAt_put_or_empties_iff {frame : Frame} {unused : IndexSet} {before : Nat}
    (apart : frame.WidesApart) (notEntry : before + 1 ∉ flow.entries)
    (there : frames.at? (before + 1) = some frame) :
    let idle := unused.diff (liveness.before (before + 1))
    let emptied := frames.put (before + 1) (idle.toList.foldl Frame.removeLocal frame)
    (∃ slot ∈ idle, (frame.localAt slot).isSome = true) →
      (emptied.localAt position slot = none ∨
          emptied.Empties flow liveness (· ∈ idle) before position slot ↔
        frames.localAt position slot = none ∨
          frames.Empties flow liveness (· ∈ unused) (before + 1) position slot) := by
  rintro idle emptied ⟨held, isIdle, isHeld⟩
  rw [empties_put_iff (Nat.lt_succ_self before)]
  simp only [idle, emptied, IndexSet.mem_diff] at isIdle ⊢
  rcases Nat.lt_trichotomy position (before + 1) with earlier | rfl | later
  · have goes : ∃ idle, idle ∈ unused ∧ idle ∉ liveness.before (before + 1) ∧
        (frames.localAt (before + 1) idle).isSome = true :=
      ⟨held, isIdle.1, isIdle.2, by rwa [localAt_of_at? there]⟩
    rw [localAt_put_of_ne (Nat.ne_of_lt earlier),
      empties_succ (Nat.le_of_lt_succ earlier)]
    simp only [notEntry, not_false_eq_true, goes, true_and]
  · rw [localAt_put_self there, empties_self (Nat.succ_pos before) notEntry,
      Frame.localAt_foldl_removeLocal_eq_none_iff apart,
      or_iff_left fun empties => Nat.not_succ_le_self before empties.walks.le]
    simp [WideAt, Frame.HoldsWide, localAt_of_at? there, and_assoc]
  · rw [localAt_put_of_ne (Nat.ne_of_gt later),
      or_iff_left fun empties =>
        Nat.not_le_of_lt later (Nat.le_succ_of_le empties.walks.le),
      or_iff_left fun empties => Nat.not_le_of_lt later empties.walks.le]

/-- A walk back through a block empties exactly the slots that are idle where it comes. -/
theorem localAt_trimBack_eq_none_iff {original : Frames} {maxLocals : Nat}
    {unused : IndexSet} (shaped : Query.AllFrames (Frame.Shaped maxLocals) original)
    (trimmed : original.TrimmedTo liveness frames) :
    (frames.trimBack flow liveness unused last).localAt position slot = none ↔
      frames.localAt position slot = none ∨
        frames.Empties flow liveness (· ∈ unused) last position slot := by
  induction last generalizing frames unused with
  | zero =>
      refine (or_iff_left_of_imp fun empties => ?_).symm
      exact absurd empties.walks.positive (Nat.not_lt.mpr empties.walks.le)
  | succ before ih =>
      by_cases isEntry : before + 1 ∈ flow.entries
      · rw [trimBack_of_entry isEntry]
        refine (or_iff_left_of_imp fun empties => ?_).symm
        exact absurd isEntry (empties.walks.inside _ empties.walks.le (Nat.le_refl _))
      cases there : frames.at? (before + 1) with
      | none =>
          rw [trimBack_of_none there]
          refine (or_iff_left_of_imp fun empties => empties.localAt_eq_none ?_).symm
          intro idle _ _
          rw [localAt, there, Option.bind_none]
      | some frame =>
          rcases trimBack_succ isEntry there with ⟨allEmpty, stops⟩ | ⟨isIdle, _, goesOn⟩
          · rw [stops]
            refine (or_iff_left_of_imp fun empties => empties.localAt_eq_none ?_).symm
            intro idle isUnused notLive
            rw [localAt_of_at? there]
            exact allEmpty idle (IndexSet.mem_diff.mpr ⟨isUnused, notLive⟩)
          · rw [goesOn, ih (trimmed.put_foldl shaped there fun slot member =>
              (IndexSet.mem_diff.mp (IndexSet.mem_toList.mp member)).2)]
            exact localAt_put_or_empties_iff (trimmed.widesApart shaped there)
              isEntry there isIdle

theorem localAt_trimExit_eq_none_iff {original : Frames} {maxLocals exit : Nat}
    (shaped : Query.AllFrames (Frame.Shaped maxLocals) original)
    (trimmed : original.TrimmedTo liveness frames) :
    (frames.trimExit flow liveness exit).localAt position slot = none ↔
      frames.localAt position slot = none ∨ flow.targetsOf exit ≠ [] ∧
        frames.Empties flow liveness (frames.Unkept flow exit) exit position slot := by
  unfold trimExit
  split
  next noTargets => simp [List.isEmpty_iff.mp noTargets]
  next leads =>
    have leads : flow.targetsOf exit ≠ [] := by simpa using leads
    simp only [localAt_trimBack_eq_none_iff shaped trimmed, mem_unusedAt, leads, ne_eq,
      not_false_eq_true, true_and]

/-! ## Slots that are dropped -/

/-- Going back from the end of a block, trimming comes to the position, where the slot
is idle: the block supplies it, no target keeps it, and it has not been live since. -/
structure Drops (flow : Flow) (liveness : Liveness) (frames : Frames)
    (exit position slot : Nat) :
    Prop where
  leads : flow.targetsOf exit ≠ []
  walks : frames.WalksTo flow liveness (frames.Unkept flow exit) exit position
  unkept : frames.Unkept flow exit slot
  dead : liveness.DeadFrom slot position exit

/-- No walk from a later block comes to the end of the block. -/
def Undisturbed (flow : Flow) (liveness : Liveness) (frames : Frames)
    (exit : Nat) : Prop :=
  ∀ later, exit < later → flow.targetsOf later ≠ [] →
    ¬frames.WalksTo flow liveness (frames.Unkept flow later) later exit

theorem undisturbed_of_entry {exit : Nat} (isEntry : exit + 1 ∈ flow.entries) :
    frames.Undisturbed flow liveness exit := by
  intro later isLater _ walks
  exact walks.inside (exit + 1) (Nat.le_succ exit) isLater isEntry

/-- What is known of frames on their way to being trimmed.  Entries are as they were.
An emptied slot was dropped, or is the upper half of a value that was, and no upper half
stays alone. -/
structure Accounted (flow : Flow) (liveness : Liveness)
    (original frames : Frames) : Prop where
  trims : original.TrimmedTo liveness frames
  entries {position : Nat} (isEntry : position ∈ flow.entries) :
    frames.at? position = original.at? position
  dropped {position slot : Nat} (isEmpty : frames.localAt position slot = none) :
    original.localAt position slot = none ∨
      ∃ exit idle, original.Drops flow liveness exit position idle ∧
        frames.localAt position idle = none ∧
        (slot = idle ∨ slot = idle + 1 ∧ original.WideAt position idle)
  paired {position slot : Nat} (isWide : original.WideAt position slot)
    (isEmpty : frames.localAt position slot = none) :
    frames.localAt position (slot + 1) = none

theorem Accounted.refl (flow : Flow) (liveness : Liveness) (original : Frames) :
    Accounted flow liveness original original where
  trims := .refl liveness original
  entries := fun _ => rfl
  dropped := .inl
  paired := by
    rintro position slot ⟨type, held, _⟩ isEmpty
    cases isEmpty.symm.trans held

/-- Control goes from the ends of blocks to entries, as far as it comes to anything that
has a frame. -/
def Enters (flow : Flow) (frames : Frames) : Prop :=
  ∀ exit, ∀ target ∈ flow.targetsOf exit, target ∈ flow.entries ∨ frames.at? target = none

theorem Accounted.unkept {original : Frames} {exit : Nat}
    (accounted : Accounted flow liveness original frames) (enters : original.Enters flow)
    (isUnkept : frames.Unkept flow exit slot) : original.Unkept flow exit slot := by
  rcases Option.isSome_iff_exists.mp isUnkept.1 with ⟨type, held⟩
  refine ⟨Option.isSome_iff_exists.mpr ⟨type, accounted.trims.localAt held⟩, ?_⟩
  intro target isTarget
  rcases enters exit target isTarget with isEntry | noFrame
  · rw [localAt, ← accounted.entries isEntry]
    exact isUnkept.2 target isTarget
  · rw [localAt, noFrame, Option.bind_none]

theorem Accounted.walksTo {original : Frames} {exit : Nat}
    (accounted : Accounted flow liveness original frames) (enters : original.Enters flow)
    (walks : frames.WalksTo flow liveness (frames.Unkept flow exit) exit position) :
    original.WalksTo flow liveness (original.Unkept flow exit) exit position :=
  walks.mono (fun _ _ _ _ held => accounted.trims.localAt held) fun _ =>
    accounted.unkept enters

section Shaped

variable {original : Frames} {maxLocals : Nat}
  (shaped : Query.AllFrames (Frame.Shaped maxLocals) original)

include shaped

theorem upper_of_wideAt {type : ValueType}
    (held : original.localAt position slot = some type) (isWide : type.width = 2) :
    original.localAt position (slot + 1) = some .top := by
  rcases localAt_eq_some.mp held with ⟨frame, there, inFrame⟩
  rw [localAt_of_at? there]
  exact (shaped _ _ there).upper inFrame isWide

theorem Accounted.trimExit (accounted : Accounted flow liveness original frames)
    (enters : original.Enters flow) (exit : Nat) :
    Accounted flow liveness original (frames.trimExit flow liveness exit) := by
  have trims := accounted.trims
  have emptied_iff (position slot : Nat) :=
    @localAt_trimExit_eq_none_iff flow liveness frames position slot original
      maxLocals exit shaped trims
  have stays {position slot : Nat} (isEmpty : frames.localAt position slot = none) :
      (frames.trimExit flow liveness exit).localAt position slot = none :=
    (emptied_iff position slot).mpr (.inl isEmpty)
  refine ⟨trims.trimExit shaped exit, ?_, ?_, ?_⟩
  · intro position isEntry
    exact (at?_trimExit_of_entry isEntry frames exit).trans (accounted.entries isEntry)
  · intro position slot isEmpty
    rcases (emptied_iff position slot).mp isEmpty with
      wasEmpty | ⟨leads, walks, idle, isUnkept, dead, isSlot⟩
    · apply (accounted.dropped wasEmpty).imp_right
      rintro ⟨other, idle, drops, idleEmpty, isSlot⟩
      exact ⟨other, idle, drops, stays idleEmpty, isSlot⟩
    · have drops : original.Drops flow liveness exit position idle :=
        ⟨leads, accounted.walksTo enters walks, accounted.unkept enters isUnkept, dead⟩
      have idleEmpty := (emptied_iff position idle).mpr
        (.inr ⟨leads, walks, idle, isUnkept, dead, .inl rfl⟩)
      refine .inr ⟨exit, idle, drops, idleEmpty, isSlot.imp_right ?_⟩
      rintro ⟨isUpper, type, isHeld, isWide⟩
      exact ⟨isUpper, type, trims.localAt isHeld, isWide⟩
  · intro position slot isWide isEmpty
    by_cases wasEmpty : frames.localAt position slot = none
    · exact stays (accounted.paired isWide wasEmpty)
    rcases isWide with ⟨type, held, isWide⟩
    rcases Option.ne_none_iff_exists'.mp wasEmpty with ⟨other, heldNow⟩
    cases held.symm.trans (trims.localAt heldNow)
    rcases ((emptied_iff position slot).mp isEmpty).resolve_left wasEmpty with
      ⟨leads, walks, idle, isUnkept, dead, rfl | ⟨rfl, lower, lowerHeld, lowerWide⟩⟩
    · exact (emptied_iff position (slot + 1)).mpr
        (.inr ⟨leads, walks, slot, isUnkept, dead, .inr ⟨rfl, type, heldNow, isWide⟩⟩)
    · -- An upper half is no wide value.
      cases held.symm.trans (upper_of_wideAt shaped (trims.localAt lowerHeld) lowerWide)
      cases isWide

theorem Accounted.foldl_trimExit (accounted : Accounted flow liveness original frames)
    (enters : original.Enters flow) (exits : List Nat) :
    Accounted flow liveness original
      (exits.foldl (Frames.trimExit flow liveness) frames) := by
  apply List.foldlRecOn (motive := Accounted flow liveness original)
  · exact accounted
  · intro reached reachedAccounted exit _
    exact reachedAccounted.trimExit shaped enters exit

theorem Accounted.trim (accounted : Accounted flow liveness original frames)
    (enters : original.Enters flow) :
    Accounted flow liveness original (frames.trim flow liveness) := by
  fun_induction Frames.trim flow liveness frames with
  | case1 frames passed fewer ih => exact ih (accounted.foldl_trimExit shaped enters _)
  | case2 frames passed same => exact accounted.foldl_trimExit shaped enters _

theorem Accounted.exists_drops (accounted : Accounted flow liveness original frames)
    (isUsable : original.Usable slot position)
    (isEmpty : frames.localAt position slot = none) :
    ∃ exit, original.Drops flow liveness exit position slot := by
  rcases isUsable with ⟨type, held, isUsable⟩
  rcases accounted.dropped isEmpty with
    wasEmpty | ⟨exit, idle, drops, _, rfl | ⟨rfl, wide, wideHeld, isWide⟩⟩
  · cases wasEmpty.symm.trans held
  · exact ⟨exit, drops⟩
  · -- An upper half cannot be used.
    cases held.symm.trans (upper_of_wideAt shaped wideHeld isWide)
    exact absurd rfl isUsable

theorem Accounted.exists_drops_upper (accounted : Accounted flow liveness original frames)
    (isWide : original.WideAt position slot)
    (isKept : frames.localAt position slot ≠ none)
    (isEmpty : frames.localAt position (slot + 1) = none) :
    ∃ exit, original.Drops flow liveness exit position (slot + 1) := by
  rcases isWide with ⟨type, held, isWide⟩
  rcases accounted.dropped isEmpty with
    wasEmpty | ⟨exit, idle, drops, idleEmpty, rfl | ⟨same, _⟩⟩
  · cases wasEmpty.symm.trans (upper_of_wideAt shaped held isWide)
  · exact ⟨exit, drops⟩
  · -- The lower half would be gone as well.
    cases Nat.succ.inj same
    exact absurd idleEmpty isKept

/-! ## Walks that nothing disturbs -/

/-- The ends of later blocks leave the block as it was, if no walk from there comes to
its end. -/
theorem localAt_foldl_trimExit_of_undisturbed {exit : Nat} {exits : List Nat}
    (enters : original.Enters flow)
    (undisturbed : original.Undisturbed flow liveness exit)
    (behind : ∀ later ∈ exits, exit < later) :
    Accounted flow liveness original
      (exits.foldl (Frames.trimExit flow liveness) original) ∧
      ∀ position ≤ exit, ∀ slot,
        (exits.foldl (Frames.trimExit flow liveness) original).localAt position slot =
          original.localAt position slot := by
  apply List.foldlRecOn (motive := fun reached : Frames =>
    Accounted flow liveness original reached ∧
      ∀ position ≤ exit, ∀ slot, reached.localAt position slot =
        original.localAt position slot)
  · exact ⟨.refl flow liveness original, fun _ _ _ => rfl⟩
  · rintro reached ⟨accounted, same⟩ later member
    have accountedOn := accounted.trimExit shaped enters later
    refine ⟨accountedOn, ?_⟩
    intro position inBlock slot
    cases held : (reached.trimExit flow liveness later).localAt position slot with
    | some type => exact (accountedOn.trims.localAt held).symm
    | none =>
        rcases (localAt_trimExit_eq_none_iff shaped accounted.trims).mp held with
          wasEmpty | ⟨leads, empties⟩
        · rw [← same position inBlock, wasEmpty]
        · have isLater := behind later member
          have walks := accounted.walksTo enters
            (empties.walks.upTo inBlock (Nat.le_of_lt isLater))
          exact absurd walks (undisturbed later isLater leads)

theorem localAt_foldl_trimExit_of_none {exits : List Nat}
    (trims : original.TrimmedTo liveness frames)
    (isEmpty : frames.localAt position slot = none) :
    (exits.foldl (Frames.trimExit flow liveness) frames).localAt position
      slot = none := by
  have kept := List.foldlRecOn (motive := fun reached : Frames =>
    original.TrimmedTo liveness reached ∧ reached.localAt position slot = none) exits
    (Frames.trimExit flow liveness) ⟨trims, isEmpty⟩ ?_
  · exact kept.2
  · rintro reached ⟨trims, isEmpty⟩ exit _
    exact ⟨trims.trimExit shaped exit,
      (localAt_trimExit_eq_none_iff shaped trims).mpr (.inl isEmpty)⟩

theorem localAt_trim_of_none (trims : original.TrimmedTo liveness frames)
    (isEmpty : frames.localAt position slot = none) :
    (frames.trim flow liveness).localAt position slot = none := by
  fun_induction Frames.trim flow liveness frames with
  | case1 frames passed fewer ih =>
      exact ih (trims.trimPass shaped)
        (localAt_foldl_trimExit_of_none shaped trims isEmpty)
  | case2 frames passed same => exact localAt_foldl_trimExit_of_none shaped trims isEmpty

/-- What the end of an undisturbed block drops is emptied in the first pass: where the
walk begins, the block is as it was. -/
theorem localAt_trimPass_of_drops {exit : Nat} (enters : original.Enters flow)
    (undisturbed : original.Undisturbed flow liveness exit)
    (drops : original.Drops flow liveness exit position slot) :
    (original.trimPass flow liveness).localAt position slot = none := by
  have isExit : exit ∈ (List.range original.size).reverse := by
    rcases Option.isSome_iff_exists.mp drops.unkept.1 with ⟨type, held⟩
    rcases localAt_eq_some.mp held with ⟨frame, there, _⟩
    simpa using lt_size_of_at? there
  rcases List.append_of_mem isExit with ⟨later, earlier, isSplit⟩
  have behind : ∀ other ∈ later, exit < other := by
    have descends : (List.range original.size).reverse.Pairwise (· > ·) :=
      List.pairwise_reverse.mpr List.pairwise_lt_range
    rw [isSplit, List.pairwise_append] at descends
    intro other isLater
    exact descends.2.2 other isLater exit (List.mem_cons_self ..)
  have ⟨accounted, same⟩ :=
    localAt_foldl_trimExit_of_undisturbed shaped enters undisturbed behind
  have trims := accounted.trims
  rw [trimPass, isSplit, List.foldl_append, List.foldl_cons]
  apply localAt_foldl_trimExit_of_none shaped (trims.trimExit shaped exit)
  refine (localAt_trimExit_eq_none_iff shaped trims).mpr (.inr ⟨drops.leads, ?_⟩)
  have empties : original.Empties flow liveness (original.Unkept flow exit) exit
      position slot :=
    ⟨drops.walks, slot, drops.unkept, drops.dead, .inl rfl⟩
  apply empties.mono
  · intro between before slot type held
    rwa [same between before]
  · rintro slot ⟨isSupplied, noTarget⟩
    refine ⟨by rwa [same exit (Nat.le_refl exit)], ?_⟩
    intro target isTarget
    by_contra isKept
    rcases Option.ne_none_iff_exists'.mp isKept with ⟨type, held⟩
    cases (noTarget target isTarget).symm.trans (trims.localAt held)

theorem localAt_trim_of_drops {exit : Nat} (enters : original.Enters flow)
    (undisturbed : original.Undisturbed flow liveness exit)
    (drops : original.Drops flow liveness exit position slot) :
    (original.trim flow liveness).localAt position slot = none := by
  have isEmpty := localAt_trimPass_of_drops shaped enters undisturbed drops
  rw [Frames.trim]
  split
  · exact localAt_trim_of_none shaped
      ((TrimmedTo.refl liveness original).trimPass shaped) isEmpty
  · exact isEmpty

end Shaped

end Frames

end LocalTable
