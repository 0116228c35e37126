import LocalTable.Liveness

/-!
# Trimming frames

A local that a block supplies at its end, but that no block after it keeps, has
gone out of scope.  Trimming empties such a local against the flow, up to the
place where it is still live.  Emptying a local may free another one in the
block before, so the blocks are gone through again until nothing can be emptied.
-/

namespace LocalTable.Frames

/-- Number of occupied slots in all frames. -/
def occupancy (frames : Frames) : Nat :=
  frames.toList.foldr
    (fun frame total => (frame.map fun frame => frame.occupied.length).getD 0 + total) 0

/-- The occupied slots at a position. -/
def occupiedAt (frames : Frames) (position : Nat) : IndexSet :=
  match frames.at? position with
  | some frame => IndexSet.ofList frame.occupied
  | none => ∅

/-- Slots that a position supplies and that none of its targets keeps. -/
def unusedAt (flow : Flow) (frames : Frames) (position : Nat) : IndexSet :=
  let used := (flow.targetsOf position).foldl
    (fun used target => used.union (frames.occupiedAt target)) ∅
  (frames.occupiedAt position).diff used

/-- Empty unused slots at a position and before it, up to the start of the block,
each of them as long as it is not live.  Stop where nothing is left to empty. -/
def trimBack (flow : Flow) (liveness : Liveness) (frames : Frames) (unused : IndexSet) :
    Nat → Frames
  | 0 => frames
  | before + 1 =>
      let position := before + 1
      if flow.entries.contains position then
        frames
      else
        match frames.at? position with
        | none => frames
        | some frame =>
            let idle := unused.diff (liveness.before position)
            let trimmed := idle.toList.foldl Frame.removeLocal frame
            if trimmed.locals = frame.locals then
              frames
            else
              trimBack flow liveness (frames.put position trimmed) idle before

/-- Empty the slots that nobody uses after the end of a block. -/
def trimExit (flow : Flow) (liveness : Liveness) (frames : Frames)
    (position : Nat) : Frames :=
  if (flow.targetsOf position).isEmpty then frames
  else trimBack flow liveness frames (unusedAt flow frames position) position

/-- Go through the ends of all blocks, the last one first. -/
def trimPass (flow : Flow) (liveness : Liveness) (frames : Frames) : Frames :=
  (List.range frames.size).reverse.foldl (trimExit flow liveness) frames

/-- Empty the locals that have gone out of scope. -/
def trim (flow : Flow) (liveness : Liveness) (frames : Frames) : Frames :=
  let trimmed := frames.trimPass flow liveness
  if trimmed.occupancy < frames.occupancy then
    trim flow liveness trimmed
  else
    trimmed
termination_by frames.occupancy

end LocalTable.Frames
