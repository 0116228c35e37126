import LocalTable.Query
import LocalTable.ValueType

/-!
# Subtypes and joins

A class is a subtype of its supertypes and of their supertypes, and everything
is a subtype of the root class.  Where two paths of control meet, a slot gets
the most specific type that covers both values: the join of their types.
Interfaces form no lattice, so classes that share only interfaces meet at the
root class.
-/

namespace LocalTable.Query

variable {hierarchy : Hierarchy}

/-- Supertypes that have not been seen, each once. -/
def unseenSupertypes (data : ClassData) (seen : List BinaryName) : List BinaryName :=
  (data.supertypes.filter fun name => !seen.contains name).eraseDups

/-- Going from a class to its unseen supertypes either sees new names or leaves
fewer pending ones. -/
theorem search_shrinks {name : BinaryName} {data : ClassData}
    (found : hierarchy.find? name = some data) (rest seen : List BinaryName) :
    Prod.Lex (· < ·) (· < ·)
      (hierarchy.unseen (unseenSupertypes data seen ++ seen),
        ((unseenSupertypes data seen).reverse ++ rest).length)
      (hierarchy.unseen seen, (name :: rest).length) := by
  cases fresh : unseenSupertypes data seen with
  | nil => exact Prod.Lex.right _ (by simp)
  | cons supertype others =>
      have member : supertype ∈ unseenSupertypes data seen := by simp [fresh]
      simp only [unseenSupertypes, List.mem_eraseDups, List.mem_filter,
        Bool.not_eq_true'] at member
      exact Prod.Lex.left _ _ (Hierarchy.unseen_append_lt
        (Hierarchy.mem_mentioned found member.1) (by simp) member.2)

/-- Is the target among the pending classes or their supertypes?  The classes in
`seen` have been put on the stack of pending classes before. -/
def reaches (target : BinaryName) (pending seen : List BinaryName) :
    Query hierarchy Bool :=
  match pending with
  | [] => .done false
  | name :: rest =>
      if name = target then
        .done true
      else
        demand name fun data found =>
          have := search_shrinks found rest seen
          reaches target ((unseenSupertypes data seen).reverse ++ rest)
            (unseenSupertypes data seen ++ seen)
termination_by (hierarchy.unseen seen, pending.length)
decreasing_by exact this

/-- Is the class a subtype of the other one? -/
def isSubclass (subclass superclass : BinaryName) : Query hierarchy Bool :=
  if superclass = .object ∨ subclass = superclass then
    .done true
  else
    reaches superclass [subclass] [subclass]

/-- Is it the name of an interface? -/
def isInterface (name : BinaryName) : Query hierarchy Bool := do
  return (← resolve name).isInterface

/-- The first superclass of `current` that is a supertype of `other`.  A chain of
superclasses that runs in a circle ends at the root class. -/
def climb (other current : BinaryName) (seen : List BinaryName) :
    Query hierarchy BinaryName :=
  demand current fun data found =>
    match superclass? : data.superclass with
    | none => .done .object
    | some superclass =>
        (isSubclass other superclass).bind fun
          | true => .done superclass
          | false =>
              if circular : seen.contains superclass then
                .done .object
              else
                have mentioned : superclass ∈ hierarchy.mentioned :=
                  Hierarchy.mem_mentioned found
                    (by simp [ClassData.supertypes, superclass?])
                have := Hierarchy.unseen_append_lt mentioned
                  (List.mem_singleton_self superclass) (by simpa using circular)
                climb other superclass ([superclass] ++ seen)
termination_by hierarchy.unseen seen

/-- The most specific class that both classes extend. -/
def commonSuperclass (left right : BinaryName) : Query hierarchy BinaryName := do
  if ← isSubclass left right then
    return right
  else if ← isSubclass right left then
    return left
  else if ← isInterface left then
    return .object
  else if ← isInterface right then
    return .object
  else
    climb right left []

/-- Dimensions that an array can share with a deeper one and still be an array
of objects. -/
def sharedDimensions : RefType → Nat
  | .objectArray extra _ => extra + 1
  | type => type.dimensions - 1

/-- The most specific reference type that covers both.  Objects meet at a common
superclass, an object and an array meet at the root class, arrays of objects
with equally many dimensions meet in their elements, and other arrays meet in an
array of objects of the root class. -/
def commonRefType (left right : RefType) : Query hierarchy RefType :=
  if left = right then
    return left
  else
    match left, right with
    | .object left, .object right => return .object (← commonSuperclass left right)
    | .object _, _ | _, .object _ => return .object .object
    | left, right =>
        match left, right with
        | .objectArray leftExtra leftElement, .objectArray rightExtra rightElement =>
            if leftExtra = rightExtra then
              return .objectArray leftExtra (← commonSuperclass leftElement rightElement)
            else
              return meet left right
        | _, _ => return meet left right
where
  /-- Arrays that share no elements. -/
  meet (left right : RefType) : RefType :=
    let shared :=
      if left.dimensions = right.dimensions then left.dimensions - 1
      else if left.dimensions < right.dimensions then sharedDimensions left
      else sharedDimensions right
    RefType.ofDimensions .object shared

/-- The most specific type that covers both, if there is one. -/
def join (left right : ValueType) : Query hierarchy (Option ValueType) :=
  if left = right then
    return some left
  else
    match left, right with
    | .null, .reference _ => return some right
    | .reference _, .null => return some left
    | .reference leftRef, .reference rightRef =>
        return some (.reference (← commonRefType leftRef rightRef))
    | _, _ =>
        if left.isIntLike && right.isIntLike then
          return some (ValueType.intJoin left right)
        else
          return none

end LocalTable.Query
