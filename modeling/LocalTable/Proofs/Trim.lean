import LocalTable.Proofs.Frames.Seeds
import LocalTable.Proofs.Liveness
import LocalTable.Trim

/-!
# Trimmed frames

Trimming empties slots and does nothing else.  A live slot with a value keeps it:
the slot itself is never emptied, and it is no upper half that goes with a lower
one.
-/

namespace LocalTable

variable {maxLocals : Nat}

namespace Frame

variable {live : IndexSet} {frame kept : Frame} {slot : Nat}

/-- Slots of the frame have been emptied, and nothing else has changed. -/
structure EmptiedTo (frame kept : Frame) : Prop where
  size_eq : kept.locals.size = frame.locals.size
  stack_eq : kept.stack = frame.stack
  locals (slot : Nat) : kept.localAt slot = frame.localAt slot ∨ kept.localAt slot = none

/-- None of the emptied slots was live and held a value. -/
structure TrimmedTo (live : IndexSet) (frame kept : Frame) : Prop
    extends EmptiedTo frame kept where
  live {slot : Nat} {type : ValueType} (isLive : slot ∈ live)
    (held : frame.localAt slot = some type) (isUsable : type ≠ .top) :
    kept.localAt slot = some type

theorem EmptiedTo.refl (frame : Frame) : frame.EmptiedTo frame :=
  ⟨rfl, rfl, fun _ => .inl rfl⟩

theorem TrimmedTo.refl (live : IndexSet) (frame : Frame) : frame.TrimmedTo live frame :=
  ⟨.refl frame, fun _ held _ => held⟩

theorem localAt_removeLocal (other : Nat) :
    (frame.removeLocal slot).localAt other =
      if other = slot ∨ other = slot + 1 ∧
      (frame.localAt slot).any (·.width = 2) = true then none
      else frame.localAt other := by
  unfold removeLocal
  split
  next isEmpty =>
    by_cases same : other = slot
    · simp [same, isEmpty]
    · simp [same, isEmpty]
  next type held =>
    rw [held]
    simp only [localAt_eq, Option.any_some, decide_eq_true_eq]
    split <;> simp only [Array.getElem?_setIfInBounds, Array.size_setIfInBounds] <;> grind

theorem size_removeLocal : (frame.removeLocal slot).locals.size = frame.locals.size := by
  unfold removeLocal
  split
  · rfl
  · dsimp only
    split <;> simp

theorem stack_removeLocal : (frame.removeLocal slot).stack = frame.stack := by
  unfold removeLocal
  split <;> rfl

theorem EmptiedTo.removeLocal (emptied : frame.EmptiedTo kept) (slot : Nat) :
    frame.EmptiedTo (kept.removeLocal slot) := by
  refine ⟨size_removeLocal.trans emptied.size_eq,
    stack_removeLocal.trans emptied.stack_eq, ?_⟩
  intro other
  rw [localAt_removeLocal]
  split
  · exact .inr rfl
  · exact emptied.locals other

/-- A slot that is not live can be emptied. -/
theorem TrimmedTo.removeLocal (shaped : frame.Shaped maxLocals)
    (trimmed : frame.TrimmedTo live kept) (notLive : slot ∉ live) :
    frame.TrimmedTo live (kept.removeLocal slot) := by
  refine ⟨trimmed.toEmptiedTo.removeLocal slot,
    fun {other type} isLive held isUsable => ?_⟩
  rw [localAt_removeLocal, if_neg]
  · exact trimmed.live isLive held isUsable
  · rintro (rfl | ⟨rfl, isWide⟩)
    · exact notLive isLive
    · -- The slot behind a wide value holds its upper half, which is no value.
      obtain ⟨wide, keptWide, isWide⟩ := Option.any_eq_true _ _ |>.mp isWide
      rcases trimmed.locals slot with same | isEmpty
      · have isUpper := shaped.upper (same.symm.trans keptWide) (by simpa using isWide)
        exact isUsable (Option.some.inj (held.symm.trans isUpper))
      · cases isEmpty.symm.trans keptWide

end Frame

namespace Frames

variable {flow : Flow} {liveness : Liveness} {original frames : Frames}

/-- All frames have been trimmed, none has been lost. -/
structure TrimmedTo (liveness : Liveness) (original frames : Frames) : Prop where
  size_eq : frames.size = original.size
  none_of_none {position : Nat} (isNone : original.at? position = none) :
    frames.at? position = none
  frame {position : Nat} {frame : Frame} (there : original.at? position = some frame) :
    ∃ kept, frames.at? position = some kept ∧
      frame.TrimmedTo (liveness.before position) kept

theorem TrimmedTo.refl (liveness : Liveness) (frames : Frames) :
    frames.TrimmedTo liveness frames :=
  ⟨rfl, id, fun there => ⟨_, there, .refl _ _⟩⟩

theorem TrimmedTo.exists_original {position : Nat} {kept : Frame}
    (trimmed : original.TrimmedTo liveness frames)
    (there : frames.at? position = some kept) :
    ∃ frame, original.at? position = some frame ∧
      frame.TrimmedTo (liveness.before position) kept := by
  cases isOriginal : original.at? position with
  | none => cases (trimmed.none_of_none isOriginal).symm.trans there
  | some frame =>
      obtain ⟨_, alsoThere, frameTrimmed⟩ := trimmed.frame isOriginal
      cases there.symm.trans alsoThere
      exact ⟨frame, rfl, frameTrimmed⟩

theorem TrimmedTo.localAt {position slot : Nat} {type : ValueType}
    (trimmed : original.TrimmedTo liveness frames)
    (held : frames.localAt position slot = some type) :
    original.localAt position slot = some type := by
  obtain ⟨kept, isKept, held⟩ := localAt_eq_some.mp held
  obtain ⟨frame, there, frameTrimmed⟩ := trimmed.exists_original isKept
  rcases frameTrimmed.locals slot with same | isEmpty
  · exact localAt_eq_some.mpr ⟨frame, there, same.symm.trans held⟩
  · cases isEmpty.symm.trans held

theorem TrimmedTo.localAt_of_live {position slot : Nat}
    (trimmed : original.TrimmedTo liveness frames)
    (isLive : slot ∈ liveness.before position)
    (isUsable : original.Usable slot position) :
    frames.localAt position slot = original.localAt position slot := by
  obtain ⟨type, held, isUsable⟩ := isUsable
  obtain ⟨frame, there, inFrame⟩ := localAt_eq_some.mp held
  obtain ⟨kept, isKept, frameTrimmed⟩ := trimmed.frame there
  rw [held]
  exact localAt_eq_some.mpr ⟨kept, isKept, frameTrimmed.live isLive inFrame isUsable⟩

theorem TrimmedTo.put {position : Nat} {frame kept : Frame}
    (trimmed : original.TrimmedTo liveness frames)
    (there : original.at? position = some frame)
    (frameTrimmed : frame.TrimmedTo (liveness.before position) kept) :
    original.TrimmedTo liveness (frames.put position kept) := by
  refine ⟨(size_put ..).trans trimmed.size_eq, fun {other} isNone => ?_,
    fun {other held} isHeld => ?_⟩
  · rw [at?_put, if_neg]
    · exact trimmed.none_of_none isNone
    · rintro ⟨rfl, _⟩
      cases isNone.symm.trans there
  · rw [at?_put]
    split
    next same =>
      obtain ⟨rfl, _⟩ := same
      cases there.symm.trans isHeld
      exact ⟨kept, rfl, frameTrimmed⟩
    next => exact trimmed.frame isHeld

theorem TrimmedTo.put_foldl {position : Nat} {kept : Frame} {slots : List Nat}
    (shaped : Query.AllFrames (Frame.Shaped maxLocals) original)
    (trimmed : original.TrimmedTo liveness frames)
    (there : frames.at? position = some kept)
    (notLive : ∀ slot ∈ slots, slot ∉ liveness.before position) :
    original.TrimmedTo liveness
      (frames.put position (slots.foldl Frame.removeLocal kept)) := by
  obtain ⟨frame, isOriginal, frameTrimmed⟩ := trimmed.exists_original there
  apply trimmed.put isOriginal
  apply List.foldlRecOn (motive := frame.TrimmedTo (liveness.before position))
  · exact frameTrimmed
  · intro reached reachedTrimmed slot member
    exact reachedTrimmed.removeLocal (shaped _ _ isOriginal) (notLive slot member)

theorem TrimmedTo.trimBack (shaped : Query.AllFrames (Frame.Shaped maxLocals) original)
    (trimmed : original.TrimmedTo liveness frames) (unused : IndexSet) (position : Nat) :
    original.TrimmedTo liveness (frames.trimBack flow liveness unused position) := by
  induction position generalizing frames unused with
  | zero => exact trimmed
  | succ before ih =>
      unfold Frames.trimBack
      dsimp only
      split
      · exact trimmed
      · split
        · exact trimmed
        next kept there =>
          split
          · exact trimmed
          · apply ih
            apply trimmed.put_foldl shaped there
            intro slot member
            exact (IndexSet.mem_diff.mp (IndexSet.mem_toList.mp member)).2

theorem TrimmedTo.trimExit (shaped : Query.AllFrames (Frame.Shaped maxLocals) original)
    (trimmed : original.TrimmedTo liveness frames) (exit : Nat) :
    original.TrimmedTo liveness (frames.trimExit flow liveness exit) := by
  unfold Frames.trimExit
  split
  · exact trimmed
  · exact trimmed.trimBack shaped _ _

theorem TrimmedTo.trimPass (shaped : Query.AllFrames (Frame.Shaped maxLocals) original)
    (trimmed : original.TrimmedTo liveness frames) :
    original.TrimmedTo liveness (frames.trimPass flow liveness) := by
  apply List.foldlRecOn (motive := original.TrimmedTo liveness)
  · exact trimmed
  · intro reached reachedTrimmed exit _
    exact reachedTrimmed.trimExit shaped exit

/-- Trimming empties slots, but keeps the live ones that hold a value. -/
theorem TrimmedTo.trim (shaped : Query.AllFrames (Frame.Shaped maxLocals) original)
    (trimmed : original.TrimmedTo liveness frames) :
    original.TrimmedTo liveness (frames.trim flow liveness) := by
  fun_induction Frames.trim flow liveness frames with
  | case1 frames passed fewer ih => exact ih (trimmed.trimPass shaped)
  | case2 frames passed same => exact trimmed.trimPass shaped

/-! ## Entries -/

variable {position : Nat} (isEntry : position ∈ flow.entries)

include isEntry

theorem at?_trimBack_of_entry (frames : Frames) (unused : IndexSet) (last : Nat) :
    (frames.trimBack flow liveness unused last).at? position = frames.at? position := by
  induction last generalizing frames unused with
  | zero => rfl
  | succ before ih =>
      unfold trimBack
      dsimp only
      split
      next => rfl
      next notEntry =>
        split
        next => rfl
        next =>
          split
          next => rfl
          next =>
            rw [ih, at?_put, if_neg]
            rintro ⟨rfl, _⟩
            exact notEntry isEntry

theorem at?_trimExit_of_entry (frames : Frames) (exit : Nat) :
    (frames.trimExit flow liveness exit).at? position = frames.at? position := by
  unfold trimExit
  split
  · rfl
  · exact at?_trimBack_of_entry isEntry ..

theorem at?_trimPass_of_entry (frames : Frames) :
    (frames.trimPass flow liveness).at? position = frames.at? position := by
  apply List.foldlRecOn (motive := fun reached : Frames =>
    reached.at? position = frames.at? position)
  · rfl
  · intro reached same exit _
    exact (at?_trimExit_of_entry isEntry reached exit).trans same

/-- Trimming stops at the entries of blocks and leaves the frames there as they are. -/
theorem at?_trim_of_entry (frames : Frames) :
    (frames.trim flow liveness).at? position = frames.at? position := by
  fun_induction Frames.trim flow liveness frames with
  | case1 frames passed fewer ih => exact ih.trans (at?_trimPass_of_entry isEntry frames)
  | case2 frames passed same => exact at?_trimPass_of_entry isEntry frames

end Frames

end LocalTable
