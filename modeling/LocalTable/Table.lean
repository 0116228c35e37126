import LocalTable.Scope

/-!
# Tables of variables

Scopes become entries of a table.  The ends of a scope are marked by labels: one
that already stands there, between the same two real instructions, or a new one.
New labels are numbered behind all labels of the code, and there may be no numbers
left for them.  The variables get placeholder names.
-/

namespace LocalTable

/-- The labels that are to be placed, by the position before which they go, and
the next label that is free. -/
structure Labelling where
  free : Label
  placed : List (Nat × Label)

namespace Labelling

/-- A label that stands among the pseudo-instructions around a boundary. -/
def existing? (instructions : Array Instruction) (boundary : Nat) : Option Label :=
  let before := (instructions.toList.take boundary).reverse.takeWhile Instruction.isPseudo
  let after := (instructions.toList.drop boundary).takeWhile Instruction.isPseudo
  (before.reverse ++ after).findSome? Instruction.label?

/-- The label of a boundary, which is placed if none stands there. -/
def labelAt (instructions : Array Instruction) (labelling : Labelling) (boundary : Nat) :
    Label × Labelling :=
  match existing? instructions boundary with
  | some label => (label, labelling)
  | none =>
      match labelling.placed.lookup boundary with
      | some label => (label, labelling)
      | none =>
          (labelling.free, ⟨labelling.free.next, (boundary, labelling.free) ::
            labelling.placed⟩)

/-- Put the labels before their positions, and behind the last instruction. -/
def insertInto (labelling : Labelling) (instructions : Array Instruction) :
    Array Instruction :=
  let marker (position : Nat) : List Instruction :=
    ((labelling.placed.lookup position).map Instruction.label).toList
  let marked := instructions.toList.zipIdx.flatMap fun (instruction, position) =>
    marker position ++ [instruction]
  (marked ++ marker instructions.size).toArray

end Labelling

namespace Scope

/-- The name of a variable before it is given a proper one. -/
def placeholder (index : Nat) : UnqualifiedName :=
  UnqualifiedName.numbered ⟨"var", by decide⟩ index

/-- The entry of a scope, with the labels that it needs.  The second slot of a
wide value has no entry. -/
def entry? (instructions : Array Instruction) (labelling : Labelling) (scope : Scope)
    (index : Nat) : Option (Entry × Labelling) :=
  scope.type.fieldType?.map fun type =>
    let (first, labelling) := labelling.labelAt instructions scope.first
    let (stop, labelling) := labelling.labelAt instructions (scope.last + 1)
    (⟨placeholder index, type, first, stop, scope.slot⟩, labelling)

/-- The entries of scopes, numbered from an index, with the labels that they
need. -/
def entries (instructions : Array Instruction) (labelling : Labelling) (index : Nat) :
    List Scope → List Entry × Labelling
  | [] => ([], labelling)
  | scope :: rest =>
      match scope.entry? instructions labelling index with
      | none => entries instructions labelling (index + 1) rest
      | some (entry, labelling) =>
          let (following, labelling) := entries instructions labelling (index + 1) rest
          (entry :: following, labelling)

end Scope

namespace Code

/-- Write scopes as entries, and place the labels that they need in the code.  Not
only the new labels have to have numbers, but also the one that is free then. -/
def attach (code : Code) (scopes : List Scope) : Except Error (Code × List Entry) :=
  let (entries, labelling) :=
    Scope.entries code.instructions ⟨code.freshLabel, []⟩ 0 scopes
  if labelling.free.number ≤ Label.lastNumber then
    .ok ({ code with instructions := labelling.insertInto code.instructions }, entries)
  else
    .error .outOfLabels

end Code

end LocalTable
