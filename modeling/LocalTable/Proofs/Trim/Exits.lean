import Mathlib.Logic.Function.Iterate
import LocalTable.Proofs.Trim

/-!
# The ends of trimmed blocks

Each pass over the ends of the blocks empties a slot or changes nothing, so there are
only so many passes, and the last one changes nothing.  Therefore trimmed frames supply
nothing at the end of a block but live slots and slots that some block after it keeps.
-/

namespace LocalTable

namespace Frame

variable {frame kept : Frame} {slot : Nat}

/-- A frame with the same occupied slots has not been emptied at all. -/
theorem EmptiedTo.locals_eq (emptied : frame.EmptiedTo kept)
    (same : kept.occupied = frame.occupied) : kept.locals = frame.locals := by
  apply locals_ext emptied.size_eq
  intro slot
  apply (emptied.locals slot).elim id
  intro isEmpty
  have notOccupied : slot ∉ kept.occupied := by simp [mem_occupied, isEmpty]
  rw [same, mem_occupied, Option.not_isSome_iff_eq_none] at notOccupied
  rw [isEmpty, notOccupied]

/-- A frame in which something has been emptied has fewer occupied slots. -/
theorem EmptiedTo.length_occupied_lt (emptied : frame.EmptiedTo kept)
    (differs : kept.locals ≠ frame.locals) :
    kept.occupied.length < frame.occupied.length := by
  have sublist : kept.occupied.Sublist frame.occupied := by
    simp only [occupied, emptied.size_eq]
    apply List.monotone_filter_right
    intro slot isSome
    rcases emptied.locals slot with same | isEmpty
    · rwa [← same]
    · simp [isEmpty] at isSome
  apply Nat.lt_of_le_of_ne sublist.length_le
  intro length_eq
  exact differs (emptied.locals_eq (sublist.eq_of_length length_eq))

theorem EmptiedTo.foldl_removeLocal (emptied : frame.EmptiedTo kept) (slots : List Nat) :
    frame.EmptiedTo (slots.foldl Frame.removeLocal kept) := by
  apply List.foldlRecOn (motive := frame.EmptiedTo)
  · exact emptied
  · intro reached reachedEmptied slot _
    exact reachedEmptied.removeLocal slot

theorem localAt_foldl_removeLocal {slots : List Nat} (member : slot ∈ slots)
    (frame : Frame) :
    (slots.foldl removeLocal frame).localAt slot = none := by
  obtain ⟨earlier, later, rfl⟩ := List.append_of_mem member
  rw [List.foldl_append, List.foldl_cons]
  apply List.foldlRecOn (motive := fun reached : Frame => reached.localAt slot = none)
  · simp [localAt_removeLocal]
  · intro reached isEmpty other _
    simp [localAt_removeLocal, isEmpty]

theorem foldl_removeLocal_of_empty {slots : List Nat}
    (allEmpty : ∀ slot ∈ slots, frame.localAt slot = none) :
    slots.foldl removeLocal frame = frame := by
  induction slots with
  | nil => rfl
  | cons slot rest ih =>
      have isEmpty := allEmpty slot (List.mem_cons_self ..)
      have unchanged : frame.removeLocal slot = frame := by simp [removeLocal, isEmpty]
      rw [List.foldl_cons, unchanged]
      exact ih fun other member => allEmpty other (List.mem_cons_of_mem slot member)

end Frame

namespace Frames

variable {flow : Flow} {liveness : Liveness} {frames : Frames} {frame kept : Frame}
  {position slot : Nat}

theorem mem_occupiedAt :
    slot ∈ frames.occupiedAt position ↔ (frames.localAt position slot).isSome = true := by
  rw [occupiedAt, localAt]
  cases frames.at? position with
  | none => simp
  | some frame => simp [Frame.mem_occupied]

/-- The position supplies the slot, and none of its targets keeps it. -/
def Unkept (flow : Flow) (frames : Frames) (position slot : Nat) : Prop :=
  (frames.localAt position slot).isSome = true ∧
    ∀ target ∈ flow.targetsOf position, frames.localAt target slot = none

theorem mem_unusedAt : slot ∈ unusedAt flow frames position ↔
    frames.Unkept flow position slot := by
  rw [unusedAt, IndexSet.mem_diff, IndexSet.mem_foldl_union, mem_occupiedAt]
  simp [Unkept, mem_occupiedAt]

theorem occupancy_put_lt (there : frames.at? position = some frame)
    (fewer : kept.occupied.length < frame.occupied.length) :
    (frames.put position kept).occupancy < frames.occupancy := by
  have inBounds : position < frames.toList.length := lt_size_of_at? there
  have isFrame : frames.toList[position] = some frame := by
    simpa [at?_eq, lt_size_of_at? there] using there
  obtain ⟨earlier, later, isOld, _, isNew⟩ :=
    @List.exists_of_set _ position (some kept) frames.toList inBounds
  rw [isFrame] at isOld
  rw [occupancy, occupancy, put, Array.toList_setIfInBounds, isNew, isOld]
  apply foldr_weight_lt
  exact fewer

/-! ## Steps -/

theorem trimBack_of_entry {last : Nat} (isEntry : last ∈ flow.entries)
    (unused : IndexSet) :
    frames.trimBack flow liveness unused last = frames := by
  cases last with
  | zero => rfl
  | succ before =>
      rw [trimBack, if_pos (show flow.entries.contains (before + 1) = true from isEntry)]

theorem trimBack_of_none {last : Nat} (nothing : frames.at? last = none)
    (unused : IndexSet) :
    frames.trimBack flow liveness unused last = frames := by
  cases last with
  | zero => rfl
  | succ before => simp [trimBack, nothing]

/-- At a position that is no entry, all idle slots are empty and the walk ends, or some
are emptied and it goes on with them. -/
theorem trimBack_succ {before : Nat} {unused : IndexSet}
    (notEntry : before + 1 ∉ flow.entries)
    (there : frames.at? (before + 1) = some frame) :
    let idle := unused.diff (liveness.before (before + 1))
    let emptied := frames.put (before + 1) (idle.toList.foldl Frame.removeLocal frame)
    ((∀ slot ∈ idle, frame.localAt slot = none) ∧
        frames.trimBack flow liveness unused (before + 1) = frames) ∨
      (∃ slot ∈ idle, (frame.localAt slot).isSome = true) ∧
        emptied.occupancy < frames.occupancy ∧
        frames.trimBack flow liveness unused (before + 1) =
          emptied.trimBack flow liveness idle before := by
  intro idle emptied
  have isInside : flow.entries.contains (before + 1) = false :=
    IndexSet.contains_eq_false.mpr notEntry
  simp only [trimBack, isInside, there, Bool.false_eq_true, if_false]
  split
  next same =>
    refine .inl ⟨?_, rfl⟩
    intro slot isIdle
    have emptied := Frame.localAt_foldl_removeLocal (IndexSet.mem_toList.mpr isIdle) frame
    rwa [Frame.localAt, same] at emptied
  next differs =>
    refine .inr ⟨?_, occupancy_put_lt there ?_, rfl⟩
    · by_contra allEmpty
      simp only [not_exists, not_and, Option.not_isSome_iff_eq_none] at allEmpty
      apply differs
      rw [Frame.foldl_removeLocal_of_empty fun slot member =>
        allEmpty slot (IndexSet.mem_toList.mp member)]
    · exact ((Frame.EmptiedTo.refl frame).foldl_removeLocal _).length_occupied_lt differs

theorem trimBack_eq_or_occupancy_lt (frames : Frames) (unused : IndexSet) (last : Nat) :
    frames.trimBack flow liveness unused last = frames ∨
      (frames.trimBack flow liveness unused last).occupancy < frames.occupancy := by
  induction last generalizing frames unused with
  | zero => exact .inl rfl
  | succ before ih =>
      by_cases isEntry : before + 1 ∈ flow.entries
      · exact .inl (trimBack_of_entry isEntry unused)
      · cases there : frames.at? (before + 1) with
        | none => exact .inl (trimBack_of_none there unused)
        | some frame =>
            have goneThrough :=
              @trimBack_succ flow liveness frames frame before unused isEntry there
            rcases goneThrough with ⟨_, same⟩ | ⟨_, fewer, goesOn⟩
            · exact .inl same
            · rw [goesOn]
              rcases ih _ (unused.diff (liveness.before (before + 1))) with
                same | evenFewer
              · exact .inr (by rwa [same])
              · exact .inr (Nat.lt_trans evenFewer fewer)

theorem trimExit_eq_or_occupancy_lt (frames : Frames) (exit : Nat) :
    frames.trimExit flow liveness exit = frames ∨
      (frames.trimExit flow liveness exit).occupancy < frames.occupancy := by
  unfold trimExit
  split
  · exact .inl rfl
  · exact trimBack_eq_or_occupancy_lt ..

/-- A pass empties a slot, or none of the ends of blocks has any slot to empty. -/
theorem trimPass_eq_or_occupancy_lt (frames : Frames) :
    (frames.trimPass flow liveness = frames ∧
        ∀ exit < frames.size, frames.trimExit flow liveness exit = frames) ∨
      (frames.trimPass flow liveness).occupancy < frames.occupancy := by
  rcases foldl_eq_or_lt occupancy (@trimExit_eq_or_occupancy_lt flow liveness)
    (List.range frames.size).reverse frames with ⟨same, fixed⟩ | fewer
  · exact .inl ⟨same, fun exit inBounds => fixed exit (by simpa using inBounds)⟩
  · exact .inr fewer

/-- Trimming takes no more passes than there are occupied slots, and one that changes
nothing. -/
theorem exists_passes (flow : Flow) (liveness : Liveness) (frames : Frames) :
    ∃ passes ≤ frames.occupancy,
      (trimPass flow liveness)^[passes] frames = frames.trim flow liveness ∧
      (frames.trim flow liveness).trimPass flow liveness = frames.trim flow liveness := by
  fun_induction trim flow liveness frames with
  | case1 frames trimmed fewer ih =>
      obtain ⟨passes, bound, isLast, fixed⟩ := ih
      exact ⟨passes + 1, Nat.succ_le_of_lt (Nat.lt_of_le_of_lt bound fewer),
        isLast, fixed⟩
  | case2 frames trimmed same =>
      rcases @trimPass_eq_or_occupancy_lt flow liveness frames with ⟨isSame, _⟩ | fewer
      · have trimmed_eq : trimmed = frames := isSame
        exact ⟨0, Nat.zero_le _, trimmed_eq.symm, by rw [trimmed_eq, isSame]⟩
      · exact absurd fewer same

/-- Where a pass changes nothing, the end of a block supplies only live slots and slots
that one of its targets keeps. -/
theorem live_or_kept_of_trimPass_eq {exit : Nat}
    (fixed : frames.trimPass flow liveness = frames) (notFirst : exit ≠ 0)
    (leads : flow.targetsOf exit ≠ []) (notEntry : exit ∉ flow.entries)
    (isOccupied : (frames.localAt exit slot).isSome = true) :
    slot ∈ liveness.before exit ∨
      ∃ target ∈ flow.targetsOf exit, (frames.localAt target slot).isSome = true := by
  obtain ⟨type, held⟩ := Option.isSome_iff_exists.mp isOccupied
  obtain ⟨frame, there, inFrame⟩ := localAt_eq_some.mp held
  obtain ⟨before, rfl⟩ := Nat.exists_eq_succ_of_ne_zero notFirst
  have fixedExit : frames.trimBack flow liveness (unusedAt flow frames (before + 1))
      (before + 1) = frames := by
    rcases @trimPass_eq_or_occupancy_lt flow liveness frames with ⟨_, all⟩ | fewer
    · have fixedExit := all (before + 1) (lt_size_of_at? there)
      rwa [trimExit, if_neg (by simpa using leads)] at fixedExit
    · rw [fixed] at fewer
      exact absurd fewer (Nat.lt_irrefl _)
  rcases trimBack_succ notEntry there with ⟨allEmpty, _⟩ | ⟨_, fewer, goesOn⟩
  · by_contra neither
    obtain ⟨notLive, noTarget⟩ := not_or.mp neither
    have isUnused : slot ∈ unusedAt flow frames (before + 1) :=
      mem_unusedAt.mpr ⟨isOccupied, by simpa using noTarget⟩
    have isIdle := IndexSet.mem_diff.mpr ⟨isUnused, notLive⟩
    cases (allEmpty slot isIdle).symm.trans inFrame
  · -- Otherwise the pass would have emptied something.
    rw [goesOn] at fixedExit
    generalize frames.put (before + 1) _ = emptied at fewer fixedExit
    rcases @trimBack_eq_or_occupancy_lt flow liveness emptied
      ((unusedAt flow frames (before + 1)).diff (liveness.before (before + 1))) before
      with same | evenFewer
    · rw [← same, fixedExit] at fewer
      exact absurd fewer (Nat.lt_irrefl _)
    · rw [fixedExit] at evenFewer
      exact absurd evenFewer (Nat.lt_asymm fewer)

end Frames

namespace Query

variable {hierarchy : Hierarchy}

/-- Trimming ends after as many passes as there are occupied slots at the most.  It keeps
all frames and their stacks, it empties only slots that are not live, and what the end of
a block still supplies is live there or kept by one of its targets. -/
theorem trimming_leaves_live_and_kept_slots {body : Body} {branches completed flow : Flow}
    {frames trimmed : Frames} {liveness : Liveness}
    (computed : (computeFrames body branches : Query hierarchy _).eval =
      .ok (frames, completed))
    (isLive : liveness = (Liveness.compute body.instructions flow frames
      body.code.maxLocals).1)
    (isTrimmed : trimmed = frames.trim flow liveness) :
    (∃ passes ≤ frames.occupancy,
      (Frames.trimPass flow liveness)^[passes] frames = trimmed ∧
      trimmed.trimPass flow liveness = trimmed) ∧
    (∀ position, (trimmed.at? position).map Frame.stack =
      (frames.at? position).map Frame.stack) ∧
    (∀ position slot, trimmed.localAt position slot = frames.localAt position slot ∨
      trimmed.localAt position slot = none) ∧
    (∀ position, ∀ slot ∈ liveness.before position,
      trimmed.localAt position slot = frames.localAt position slot) ∧
    ∀ exit slot, exit ≠ 0 → flow.targetsOf exit ≠ [] → exit ∉ flow.entries →
      (trimmed.localAt exit slot).isSome = true →
      slot ∈ liveness.before exit ∨
        ∃ target ∈ flow.targetsOf exit, (trimmed.localAt target slot).isSome = true := by
  obtain ⟨sized, shaped⟩ := shaped_computeFrames computed
  have trims : frames.TrimmedTo liveness trimmed :=
    isTrimmed ▸ .trim shaped (.refl liveness frames)
  have passes := Frames.exists_passes flow liveness frames
  rw [← isTrimmed] at passes
  refine ⟨passes, ?_, ?_, ?_, ?_⟩
  · intro position
    cases there : frames.at? position with
    | none => rw [trims.none_of_none there]
    | some frame =>
        obtain ⟨kept, thereKept, frameTrims⟩ := trims.frame there
        simp [thereKept, frameTrims.stack_eq]
  · intro position slot
    cases held : trimmed.localAt position slot with
    | none => exact .inr rfl
    | some type => exact .inl (trims.localAt held).symm
  · intro position slot isLiveHere
    cases there : frames.at? position with
    | none => simp [Frames.localAt, there, trims.none_of_none there]
    | some frame =>
        rw [isLive] at isLiveHere trims
        have isUsable := Liveness.usable_of_mem_compute sized shaped there isLiveHere
        exact trims.localAt_of_live isLiveHere isUsable
  · intro exit slot notFirst leads notEntry isOccupied
    obtain ⟨_, _, _, fixed⟩ := passes
    exact Frames.live_or_kept_of_trimPass_eq fixed notFirst leads notEntry isOccupied

/-- A method with a wide local in one branch, which is used for the last time before the
branch ends. -/
def joiningBody : Body :=
  .plain [.base .int] 2 3 #[.load .int 0, .branchZero .eq ⟨0⟩, .longConstant 1,
    .store .long 1, .load .long 1, .pop2, .nop, .label ⟨0⟩, .returnVoid]

/-- The wide local stays up to its last use.  At the end of the branch it is gone, and the
parameter is still there because the code behind the branch keeps it. -/
theorem joining_exit_keeps_parameter :
    ∃ branches frames completed flow liveness trimmed,
      (computeFrames joiningBody branches : Query ⟨[]⟩ _).eval = .ok (frames, completed) ∧
      flow = (completed.protect joiningBody.instructions).closeBlocks ∧
      liveness = (Liveness.compute joiningBody.instructions flow frames 3).1 ∧
      trimmed = frames.trim flow liveness ∧
      flow.targetsOf 6 = [7] ∧ 6 ∉ flow.entries ∧
      frames.localAt 6 1 = some .long ∧ trimmed.localAt 6 1 = none ∧
      1 ∈ liveness.before 5 ∧ trimmed.localAt 5 1 = some .long ∧
      0 ∉ liveness.before 6 ∧ (trimmed.localAt 6 0).isSome = true ∧
      (trimmed.localAt 7 0).isSome = true := by
  have ran : (do
      let branches ← ofExcept (Flow.ofCode joiningBody.code)
      let (frames, completed) ← computeFrames joiningBody branches
      let flow := (completed.protect joiningBody.instructions).closeBlocks
      let liveness := (Liveness.compute joiningBody.instructions flow frames 3).1
      let trimmed := frames.trim flow liveness
      return (flow.targetsOf 6,
        [flow.entries.contains 6, liveness.isLive 6 1, liveness.isLive 6 0,
          liveness.isLive 5 1, (trimmed.localAt 6 0).isSome],
            [frames.localAt 6 1, frames.localAt 5 1,
        trimmed.localAt 7 1]) : Query ⟨[]⟩ _).eval =
      .ok ([7], [false, false, false, true, true], [some .long, some .long, none]) := by
    decide +kernel
  obtain ⟨branches, _, ran⟩ := eval_bind_eq_ok.mp ran
  obtain ⟨⟨frames, completed⟩, computed, described⟩ := eval_bind_eq_ok.mp ran
  have described := Except.ok.inj described
  obtain ⟨flow, isFlow⟩ : ∃ flow,
    flow = (completed.protect joiningBody.instructions).closeBlocks := ⟨_, rfl⟩
  obtain ⟨liveness, isLive⟩ : ∃ liveness,
    liveness = (Liveness.compute joiningBody.instructions flow frames 3).1 := ⟨_, rfl⟩
  obtain ⟨trimmed, isTrimmed⟩ : ∃ trimmed, trimmed = frames.trim flow liveness := ⟨_, rfl⟩
  simp only [Prod.mk.injEq, List.cons.injEq, and_true, ← isFlow, ← isLive,
    ← isTrimmed] at described
  obtain ⟨leads, ⟨notEntry, wideDead, parameterDead, wideLive, parameterThere⟩, wideThere,
    wideBefore, wideBehind⟩ := described
  have outside : 6 ∉ flow.entries := IndexSet.contains_eq_false.mp notEntry
  obtain ⟨_, _, _, live, exits⟩ :=
    trimming_leaves_live_and_kept_slots computed isLive isTrimmed
  have atEnd (slot : Nat) (isOccupied : (trimmed.localAt 6 slot).isSome = true) :
      slot ∈ liveness.before 6 ∨ (trimmed.localAt 7 slot).isSome = true := by
    simpa [leads] using exits 6 slot (by decide) (by simp [leads]) outside isOccupied
  refine ⟨branches, frames, completed, flow, liveness, trimmed, computed, isFlow,
    isLive, isTrimmed, leads, outside, wideThere, ?_, wideLive,
      (live 5 1 wideLive).trans wideBefore,
    IndexSet.contains_eq_false.mp parameterDead, parameterThere, ?_⟩
  · rw [← Option.not_isSome_iff_eq_none]
    intro isOccupied
    rcases atEnd 1 isOccupied with isLive | isKept
    · exact IndexSet.contains_eq_false.mp wideDead isLive
    · simp [wideBehind] at isKept
  · exact (atEnd 0 parameterThere).resolve_left
      (IndexSet.contains_eq_false.mp parameterDead)

end Query

end LocalTable
