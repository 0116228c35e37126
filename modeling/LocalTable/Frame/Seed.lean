import LocalTable.Frame

/-!
# Frames from snapshots

A snapshot turns the frame of the snapshot before it into the frame at its own
position.  Its values are resolved to types first; a value without a type makes
the slot unusable.
-/

namespace LocalTable

/-- The meaning of a snapshot value outside of any method. -/
def VerificationType.resolve : VerificationType → Except SnapshotFault (Option ValueType)
  | .top => .ok none
  | .integer => .ok (some .int)
  | .float => .ok (some .float)
  | .long => .ok (some .long)
  | .double => .ok (some .double)
  | .null => .ok (some .null)
  | .object type => .ok (some (.reference type))
  | .uninitializedThis | .uninitialized _ => .error .unsupportedValue

/-- How the values of a snapshot are given types. -/
abbrev Resolver := VerificationType → Except SnapshotFault (Option ValueType)

namespace Frame

/-- Put values into the locals from a slot onwards, and return the slot behind
them.  `count` is the number of values that the snapshot lists. -/
def unpackFrom (frame : Frame) (resolve : Resolver) (count slot : Nat) :
    List VerificationType → Except SnapshotFault (Nat × Frame)
  | [] => .ok (slot, frame)
  | value :: rest => do
      let type ← resolve value
      let width := (type.map ValueType.width).getD 1
      if frame.locals.size < slot + width then
        .error (.localsDoNotFit count frame.locals.size)
      else
        let stored := frame.locals.setIfInBounds slot type
        let completed :=
          if width = 2 then stored.setIfInBounds (slot + 1) (some .top) else stored
        { frame with locals := completed }.unpackFrom resolve count (slot + width) rest

/-- Put values into the locals from a slot onwards, and empty all slots behind
them. -/
def unpackLocals (frame : Frame) (resolve : Resolver) (slot : Nat)
    (values : List VerificationType) : Except SnapshotFault Frame := do
  let (stop, frame) ← frame.unpackFrom resolve values.length slot values
  let cleared := frame.locals.mapIdx fun index type => if index < stop then type else none
  return { frame with locals := cleared, described := stop }

/-- Push values of a snapshot, the first one first. -/
def pushValues (frame : Frame) (resolve : Resolver) :
    List VerificationType → Except SnapshotFault Frame
  | [] => .ok frame
  | value :: rest => do
      let pushed :=
        match ← resolve value with
        | some type => frame.push type none
        | none => frame.pushCell (.anonymous none)
      match pushed with
      | .ok frame => frame.pushValues resolve rest
      | .error _ => .error (.stackTooHigh frame.maxStack)

/-- Empty the last locals that the snapshot before described.  `total` is the
number of locals that the snapshot takes away. -/
def chopLocals (frame : Frame) (total : Nat) : Nat → Except SnapshotFault Frame
  | 0 => .ok frame
  | count + 1 =>
      match frame.described with
      | 0 => .error (.cannotChop total)
      | last + 1 =>
          let removed := frame.localAt last
          let chopped := { frame with
            locals := frame.locals.setIfInBounds last none, described := last }
          if removed = some .top ∧ 0 < last then
            { chopped with
              locals := chopped.locals.setIfInBounds (last - 1) none
              described := last - 1 }.chopLocals total count
          else
            chopped.chopLocals total count

/-- The frame that a snapshot describes, given the frame of the snapshot before. -/
def expand (frame : Frame) (resolve : Resolver) (snapshot : Snapshot) :
    Except SnapshotFault Frame := do
  let expanded ←
    match snapshot with
    | .full locals stack => do
        let frame ← frame.unpackLocals resolve 0 locals
        frame.clearStack.pushValues resolve stack
    | .append locals => do
        let frame ← frame.unpackLocals resolve frame.described locals
        pure frame.clearStack
    | .chop count => do
        let frame ← frame.chopLocals count count
        pure frame.clearStack
    | .same => pure frame.clearStack
    | .sameOneStack value => frame.clearStack.pushValues resolve [value]
  return { expanded with seeded := true }

end Frame

end LocalTable
