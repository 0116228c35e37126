import LocalTable.Frame
import LocalTable.Hierarchy.Subtyping

/-!
# Joining frames

Where paths of control meet, the frames that they bring are joined slot by slot
and cell by cell.  A slot that is empty on one path is empty after the join.  A
snapshot knows `int` only, so a computed narrower type is preferred to it.
-/

namespace LocalTable.Query

variable {hierarchy : Hierarchy}

/-- Join what two frames know about a slot or a cell. -/
def mergeTypes (seeded : Bool) (left right : Option ValueType) :
    Query hierarchy (Option ValueType) :=
  match left, right with
  | some left, some right =>
      if left = .top ∨ right = .top then
        return some .top
      else if seeded && left = .int && right.isNarrowerThanInt then
        return some right
      else
        join left right
  | _, _ => return none

/-- Join locals; slots that only the left frame has stay as they are. -/
def mergeLocals (seeded : Bool) :
    List (Option ValueType) → List (Option ValueType) →
    Query hierarchy (List (Option ValueType))
  | left :: lefts, right :: rights => do
      let merged ← mergeTypes seeded left right
      let rest ← mergeLocals seeded lefts rights
      return merged :: rest
  | lefts, _ => return lefts

/-- Join cells.  The source of a value is kept if both sides agree on it. -/
def mergeCells (seeded : Bool) : List Cell → List Cell → Query hierarchy (List Cell)
  | left :: lefts, right :: rights => do
      let type ← mergeTypes seeded left.type right.type
      let source :=
        if type = none ∨ type = some .top then none
        else if left.source = right.source then left.source
        else none
      let rest ← mergeCells seeded lefts rights
      return ⟨type, source⟩ :: rest
  | lefts, _ => return lefts

/-- Join the right frame into the left one, and tell whether that changed it.
Both stacks must have the same depth. -/
def merge (left right : Frame) (position : Nat) : Query hierarchy (Frame × Bool) :=
  if left.stack.length ≠ right.stack.length then
    .fail (.inconsistentStackDepth position left.stack.length right.stack.length)
  else do
    let locals ← mergeLocals left.seeded left.locals.toList right.locals.toList
    let stack ← mergeCells left.seeded left.stack.reverse right.stack.reverse
    let merged :=
      { left with locals := locals.toArray, stack := stack.reverse, seeded := false }
    return (merged, merged.locals ≠ left.locals || merged.stack ≠ left.stack)

end LocalTable.Query
