import LocalTable.Frames

/-!
# Scopes of variables

A scope is a set of positions at which one local slot holds one variable.

Within a block, a slot that holds the same type at consecutive positions is one
variable.  A variable is still the same when control goes from one block to
another, so scopes are merged along the edges of the flow whenever their types
fit.  A merged scope may stretch over another variable in the same slot; then it
is split into its runs of consecutive positions.
-/

namespace LocalTable

/-- The positions at which a slot holds a variable.  `first` and `last` are the
least and the greatest of them. -/
structure Scope where
  slot : Nat
  type : ValueType
  first : Nat
  last : Nat
  positions : IndexSet
  deriving DecidableEq

namespace Scope

/-- Does the variable exist at the position? -/
def existsAt (scope : Scope) (position : Nat) : Bool :=
  scope.positions.contains position

/-- Do the ranges of two scopes of one slot meet? -/
def overlaps (left right : Scope) : Bool :=
  left.slot = right.slot && left.first ≤ right.last && right.first ≤ left.last

/-- The type of a variable that has either type, if they fit: null fits every
reference. -/
def commonType? (left right : ValueType) : Option ValueType :=
  if left = right then some left
  else if left = .null && right.isReference then some right
  else if right = .null && left.isReference then some left
  else none

/-- One scope for two. -/
def absorb (left right : Scope) (type : ValueType) : Scope :=
  { slot := left.slot
    type := type
    first := min left.first right.first
    last := max left.last right.last
    positions := left.positions.union right.positions }

/-- The scope of consecutive positions. -/
def ofRun (slot : Nat) (type : ValueType) (first : Nat) (rest : List Nat) : Scope :=
  { slot := slot
    type := type
    first := first
    last := rest.getLastD first
    positions := IndexSet.ofList (first :: rest) }

/-- Cut ascending positions into runs of consecutive ones, given as the first
position and the others. -/
def runs : List Nat → List (Nat × List Nat)
  | [] => []
  | position :: rest =>
      match runs rest with
      | [] => [(position, [])]
      | (next, others) :: following =>
          if next = position + 1 then (position, next :: others) :: following
          else (position, []) :: (next, others) :: following

/-- Split a scope into its runs of consecutive positions. -/
def split (scope : Scope) : List Scope :=
  (runs scope.positions.toList).map fun (first, rest) =>
    ofRun scope.slot scope.type first rest

/-- The type of the variable in a slot at a position: upper halves of wide values
are no variables. -/
def typeAt (frames : Frames) (position slot : Nat) : Option ValueType :=
  (frames.localAt position slot).filter (· != .top)

/-- The positions of a block from a position onwards: up to the first exit. -/
def blockFrom (flow : Flow) (size position : Nat) : List Nat :=
  if position < size then
    if flow.exits.contains position then [position]
    else position :: blockFrom flow size (position + 1)
  else
    []
termination_by size - position

/-- The scope that begins in a slot at a position, if the slot held no variable of
the same type before. -/
def opened (frames : Frames) (previous : Option Nat) (position : Nat)
    (following : List Nat) (slot : Nat) : Option Scope := do
  let type ← typeAt frames position slot
  if previous.bind (typeAt frames · slot) = some type then
    none
  else
    some (ofRun slot type position
      (following.takeWhile fun next => typeAt frames next slot = some type))

/-- Scopes that begin in a block, in the order of positions and slots. -/
def inBlock (frames : Frames) (maxLocals : Nat) (previous : Option Nat) :
    List Nat → List Scope
  | [] => []
  | position :: following =>
      (List.range maxLocals).filterMap (opened frames previous position following) ++
        inBlock frames maxLocals (some position) following

/-- Scopes within the blocks of a method, in the order of the blocks. -/
def ofBlocks (flow : Flow) (frames : Frames) (maxLocals : Nat) : List Scope :=
  flow.entries.toList.flatMap fun entry =>
    inBlock frames maxLocals none (blockFrom flow frames.size entry)

/-- Positions next to a position of a scope, in ascending order: along the edges
of the flow, and right before an entry. -/
def neighbours (flow : Flow) (scope : Scope) (position : Nat) : List Nat :=
  let before :=
    if 0 < position && !scope.existsAt (position - 1) &&
        flow.entries.contains position then
      [position - 1]
    else
      []
  (IndexSet.ofList (flow.sourcesOf position ++ before ++ flow.targetsOf position)).toList

/-- All positions next to a scope, in the order of its own positions. -/
def surroundings (flow : Flow) (scope : Scope) : List Nat :=
  scope.positions.toList.flatMap (neighbours flow scope)

/-- The common type, if the other scope exists at the position in the same slot
and its type fits. -/
def mergeable? (scope : Scope) (position : Nat) (other : Scope) : Option ValueType :=
  if other.slot = scope.slot && other.existsAt position then
    commonType? scope.type other.type
  else
    none

/-- Merge a scope into the first of the others that can take it. -/
def mergeInto (scope : Scope) (position : Nat) : List Scope → Option (List Scope)
  | [] => none
  | other :: rest =>
      match mergeable? scope position other with
      | some type => some (other.absorb scope type :: rest)
      | none => (mergeInto scope position rest).map (other :: ·)

/-- Merge the first of the others that fits into a scope. -/
def mergeFrom (scope : Scope) (position : Nat) : List Scope → Option (Scope × List Scope)
  | [] => none
  | other :: rest =>
      match mergeable? scope position other with
      | some type => some (scope.absorb other type, rest)
      | none =>
        (mergeFrom scope position rest).map fun (merged, rest) => (merged, other :: rest)

/-- What becomes of a scope among the scopes before and after it. -/
inductive Merge where
  /-- A scope before it has taken it in. -/
  | intoEarlier (earlier : List Scope)
  /-- It has taken in a scope after it. -/
  | withLater (merged : Scope) (later : List Scope)

/-- Merge a scope with the first scope that exists at a position and fits. -/
def mergeAt? (scope : Scope) (earlier later : List Scope) (position : Nat) :
    Option Merge :=
  match mergeInto scope position earlier with
  | some earlier => some (.intoEarlier earlier)
  | none =>
      (mergeFrom scope position later).map fun (merged, later) => .withLater merged later

theorem length_of_mergeInto {scope : Scope} {position : Nat} {others merged : List Scope}
    (taken : mergeInto scope position others = some merged) :
    merged.length = others.length := by
  induction others generalizing merged with
  | nil => contradiction
  | cons other rest ih =>
      unfold mergeInto at taken
      split at taken
      · cases taken
        simp
      · obtain ⟨following, inRest, rfl⟩ := Option.map_eq_some_iff.mp taken
        simp [ih inRest]

theorem length_of_mergeFrom {scope merged : Scope} {position : Nat}
    {others rest : List Scope}
    (taken : mergeFrom scope position others = some (merged, rest)) :
    rest.length < others.length := by
  induction others generalizing rest with
  | nil => contradiction
  | cons other following ih =>
      unfold mergeFrom at taken
      split at taken
      · cases taken
        simp
      · obtain ⟨⟨found, kept⟩, inRest, equal⟩ := Option.map_eq_some_iff.mp taken
        cases equal
        have := ih inRest
        simp
        omega

/-- Merge a scope with the first scope next to it that fits. -/
def merge? (flow : Flow) (scope : Scope) (earlier later : List Scope) : Option Merge :=
  (surroundings flow scope).findSome? (mergeAt? scope earlier later)

theorem length_of_intoEarlier {flow : Flow} {scope : Scope}
    {earlier later merged : List Scope}
    (outcome : merge? flow scope earlier later = some (.intoEarlier merged)) :
    merged.length = earlier.length := by
  obtain ⟨position, _, taken⟩ := List.exists_of_findSome?_eq_some outcome
  unfold mergeAt? at taken
  split at taken
  next inEarlier =>
    cases taken
    exact length_of_mergeInto inEarlier
  · simp at taken

theorem length_of_withLater {flow : Flow} {scope merged : Scope}
    {earlier later rest : List Scope}
    (outcome : merge? flow scope earlier later = some (.withLater merged rest)) :
    rest.length < later.length := by
  obtain ⟨position, _, taken⟩ := List.exists_of_findSome?_eq_some outcome
  unfold mergeAt? at taken
  split at taken
  · cases taken
  · obtain ⟨⟨found, kept⟩, inLater, equal⟩ := Option.map_eq_some_iff.mp taken
    cases equal
    exact length_of_mergeFrom inLater

/-- Merge scopes along the flow, the last one first.  `earlier` holds the scopes
that are still to be gone through, the next one first; `later` holds those that
have been gone through, in order. -/
def mergeAll (flow : Flow) (earlier later : List Scope) : List Scope :=
  match earlier with
  | [] => later
  | scope :: earlier =>
      match outcome : merge? flow scope earlier.reverse later with
      | some (.intoEarlier merged) =>
          have := length_of_intoEarlier outcome
          mergeAll flow merged.reverse later
      | some (.withLater merged rest) =>
          have := length_of_withLater outcome
          mergeAll flow (merged :: earlier) rest
      | none => mergeAll flow earlier (scope :: later)
termination_by 2 * earlier.length + later.length
decreasing_by
  all_goals grind

/-- The scopes of a method after merging along the flow. -/
def merged (flow : Flow) (frames : Frames) (maxLocals : Nat) : List Scope :=
  mergeAll flow (ofBlocks flow frames maxLocals).reverse []

/-- Does another scope of the list stretch over the scope at this index? -/
def isCrossed (scopes : List Scope) (scope : Scope) (index : Nat) : Bool :=
  scopes.zipIdx.any fun (other, otherIndex) => otherIndex != index && scope.overlaps other

/-- The scopes that stretch over another one. -/
def crossed (scopes : List Scope) : List Scope :=
  (scopes.zipIdx.filter fun (scope, index) => isCrossed scopes scope index).map Prod.fst

/-- Split the scopes that stretch over another one. -/
def separate (scopes : List Scope) : List Scope :=
  scopes.zipIdx.flatMap fun (scope, index) =>
    if isCrossed scopes scope index then scope.split else [scope]

/-- Order by slot, then by the first position. -/
def precedes (left right : Scope) : Bool :=
  left.slot < right.slot || left.slot = right.slot && left.first ≤ right.first

/-- The scopes of the variables of a method, in the order of slots and positions. -/
def build (flow : Flow) (frames : Frames) (maxLocals : Nat) : List Scope :=
  (separate (merged flow frames maxLocals)).mergeSort precedes

end Scope

end LocalTable
