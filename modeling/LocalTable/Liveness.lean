import LocalTable.Frames

/-!
# Live locals

A local is live before an instruction if some path from there reads it before
writing it.  A value on the stack that was loaded from a local keeps this local
alive until the value is consumed.  Slots that are empty or unusable are never
live.

Sweeps against the flow are repeated until nothing becomes live any more.  After
that, a local that was stored stays live to the end of its block: a value that
is stored but never read still is the value of a variable.
-/

namespace LocalTable

/-- Slots that hold a value, upper halves of wide values apart. -/
def Frame.usable (frame : Frame) : IndexSet :=
  IndexSet.ofList (frame.occupied.filter fun slot => frame.localAt slot ≠ some .top)

/-- The live slots before each instruction. -/
abbrev Liveness := Array IndexSet

namespace Liveness

/-- The live slots before an instruction. -/
def before (liveness : Liveness) (position : Nat) : IndexSet :=
  liveness.getD position ∅

/-- Is the slot live before the instruction? -/
def isLive (liveness : Liveness) (position slot : Nat) : Bool :=
  (liveness.before position).contains slot

/-- Number of slots, over all instructions, that are not live. -/
def dead (liveness : Liveness) (maxLocals : Nat) : Nat :=
  liveness.toList.foldr (fun live total => live.missingBelow maxLocals + total) 0

/-- Add slots that are live before an instruction, as far as they can be used
there. -/
def save (liveness : Liveness) (frames : Frames) (position : Nat)
    (live : IndexSet) : Liveness :=
  let usable :=
    match frames.at? position with
    | some frame => live.inter frame.usable
    | none => live
  liveness.modify position (·.union usable)

/-- Add a slot of the method to a set. -/
def mark (maxLocals : Nat) (live : IndexSet) (slot : Nat) : IndexSet :=
  if slot < maxLocals then live.insert slot else live

/-- Locals from which the operands of an instruction were loaded. -/
def operandSources (frame : Frame) (instruction : Instruction) : List Nat :=
  (frame.stack.take instruction.stackDemand).filterMap fun cell =>
    if cell.type = some .top then none else cell.source

/-- The live slots before an instruction, from those after it. -/
def transfer (maxLocals : Nat) (frame : Frame) (instruction : Instruction)
    (after : IndexSet) :
    IndexSet :=
  let consumed := (operandSources frame instruction).foldl (mark maxLocals) after
  match instruction with
  | .load _ slot => mark maxLocals consumed slot
  | .store _ slot => consumed.erase slot
  | _ => consumed

/-- Bring one position up to date. -/
def sweepAt (instructions : Array Instruction) (flow : Flow) (frames : Frames)
    (maxLocals : Nat) (liveness : Liveness) (position : Nat) : Liveness :=
  match frames.at? position, instructions[position]? with
  | some frame, some instruction =>
      let after := (flow.successors position).foldl
        (fun live successor => live.union (liveness.before successor)) ∅
      liveness.save frames position (transfer maxLocals frame instruction after)
  | _, _ => liveness

/-- Bring all positions up to date, the last one first. -/
def sweep (instructions : Array Instruction) (flow : Flow) (frames : Frames)
    (maxLocals : Nat) (liveness : Liveness) : Liveness :=
  (List.range instructions.size).reverse.foldl
    (sweepAt instructions flow frames maxLocals) liveness

/-- Repeat sweeps as long as more slots become live, and count them. -/
def settle (instructions : Array Instruction) (flow : Flow) (frames : Frames)
    (maxLocals : Nat) (liveness : Liveness) (sweeps : Nat) : Liveness × Nat :=
  let swept := liveness.sweep instructions flow frames maxLocals
  if swept.dead maxLocals < liveness.dead maxLocals then
    settle instructions flow frames maxLocals swept (sweeps + 1)
  else
    (swept, sweeps + 1)
termination_by liveness.dead maxLocals

/-- Go through one instruction with the locals that were stored in its block and
have not been live since. -/
def extendAt (flow : Flow) (frames : Frames) (maxLocals : Nat) :
    Liveness × IndexSet → Instruction × Nat → Liveness × IndexSet
  | (liveness, stored), (instruction, position) =>
      let inBlock := if flow.entries.contains position then ∅ else stored
      let idle := inBlock.diff (liveness.before position)
      let extended := liveness.save frames position
        ((liveness.before position).union idle)
      match instruction.stored? with
      | some slot => (extended, mark maxLocals idle slot)
      | none => (extended, idle)

/-- Keep stored locals live to the end of their block. -/
def extendStored (instructions : Array Instruction) (flow : Flow) (frames : Frames)
    (maxLocals : Nat) (liveness : Liveness) : Liveness :=
  (instructions.toList.zipIdx.foldl (extendAt flow frames maxLocals) (liveness, ∅)).1

/-- The live slots before each instruction, and the number of sweeps that it took
to find them. -/
def compute (instructions : Array Instruction) (flow : Flow) (frames : Frames)
    (maxLocals : Nat) : Liveness × Nat :=
  let (settled, sweeps) := settle instructions flow frames maxLocals
    (Array.replicate instructions.size ∅) 0
  (settled.extendStored instructions flow frames maxLocals, sweeps)

end Liveness

end LocalTable
