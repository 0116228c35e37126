import LocalTable.Proofs.Frame.Limits
import LocalTable.Proofs.Frames.Extent
import LocalTable.Proofs.Frames.Reach

/-!
# The shape of computed frames

The frames of a method have the size that its code declares, whether or not the code
gives some of them as snapshots.  They hold one place for each local, no more cells
than the stack may have, and the upper half of every wide value right above the lower
one.
-/

namespace LocalTable.Query

variable {hierarchy : Hierarchy}

/-- All computed frames keep to the limits of the method. -/
theorem fits_computeFrames {body : Body} {branches completed : Flow} {frames : Frames}
    (computed : (computeFrames body branches : Query hierarchy _).eval =
      .ok (frames, completed)) :
    AllFrames (Frame.Fits body.limits) frames :=
  (fits_inductive hierarchy body).allFrames_computeFrames
    (fun _ => Body.fits_seeds) computed

/-- A computed frame has all locals and no more cells than its stack may have, and a
wide value in a slot has its upper half in the next one. -/
theorem computed_frames_are_well_shaped {body : Body} {branches completed : Flow}
    {frames : Frames} {position : Nat} {frame : Frame}
    (computed : (computeFrames body branches : Query hierarchy _).eval =
      .ok (frames, completed))
    (there : frames.at? position = some frame) :
    frame.locals.size = body.code.maxLocals ∧ frame.stack.length ≤ body.code.maxStack ∧
      ∀ slot, frame.localAt slot = some .long ∨ frame.localAt slot = some .double →
        slot + 1 < frame.locals.size ∧ frame.localAt (slot + 1) = some .top := by
  have shaped := (shaped_computeFrames computed).2 position frame there
  refine ⟨shaped.size_eq, (fits_computeFrames computed position frame there).length_le,
    ?_⟩
  intro slot isWide
  have isUpper : frame.localAt (slot + 1) = some .top := by
    rcases isWide with isLong | isDouble
    · exact shaped.upper isLong rfl
    · exact shaped.upper isDouble rfl
  exact ⟨Frame.lt_size_of_localAt isUpper, isUpper⟩

/-- A loop in front of which a wide parameter is moved up by one slot, onto its own
upper half. -/
def shiftingBody : Body :=
  .plain [.base .long] 2 3 #[.load .long 0, .store .long 1, .label ⟨0⟩,
    .snapshot (.full [.top, .long] []), .load .long 1, .pop2, .goto ⟨0⟩]

/-- In the loop the value is loaded, and both of its halves are one slot further up. -/
theorem shifting_frame_is_well_shaped :
    ∃ branches frames completed frame,
      (computeFrames shiftingBody branches : Query ⟨[]⟩ _).eval =
        .ok (frames, completed) ∧
      frames.at? 5 = some frame ∧ frame.localAt 1 = some .long ∧
      frame.stack.map Cell.type = [some .top, some .long] ∧
      frame.locals.size = 3 ∧ frame.stack.length ≤ 2 ∧ 1 + 1 < frame.locals.size ∧
      frame.localAt (1 + 1) = some .top := by
  have settled : (do
      let branches ← ofExcept (Flow.ofCode shiftingBody.code)
      let (frames, _) ← computeFrames shiftingBody branches
      return (frames.at? 5).map fun frame =>
        (frame.localAt 1, frame.stack.map Cell.type) :
        Query ⟨[]⟩ _).eval = .ok (some (some .long, [some .top, some .long])) := by
    decide +kernel
  obtain ⟨branches, _, settled⟩ := eval_bind_eq_ok.mp settled
  obtain ⟨⟨frames, completed⟩, computed, isFrame⟩ := eval_bind_eq_ok.mp settled
  obtain ⟨frame, there, described⟩ := Option.map_eq_some_iff.mp (Except.ok.inj isFrame)
  obtain ⟨isLong, isStack⟩ := Prod.mk.inj described
  obtain ⟨size_eq, length_le, upper⟩ := computed_frames_are_well_shaped computed there
  exact ⟨branches, frames, completed, frame, computed, there, isLong, isStack,
    size_eq, length_le, upper 1 (.inl isLong)⟩

end LocalTable.Query
