import LocalTable.Error
import LocalTable.ValueType

/-!
# What the analysis reports

The analysis notes what it does as it goes.  An event is such a note; it has a
level, and a wording for the log.
-/

namespace LocalTable

/-- How much an event matters. -/
inductive Level where
  | error
  | warn
  | debug
  | trace
  deriving DecidableEq, Repr

/-- The name of a level in the log. -/
def Level.label : Level → String
  | .error => "ERROR"
  | .warn => "WARN"
  | .debug => "DEBUG"
  | .trace => "TRACE"

/-- Something the analysis did or met. -/
inductive Event where
  /-- A class was found in a tier. -/
  | resolved (name : BinaryName) (tier : String)
  /-- A local without a value was read as if it held a value of this type. -/
  | emptyLoad (slot : Nat) (assumed : ValueType)
  /-- A local without a value was incremented as if it held an `int`. -/
  | emptyIncrement (slot : Nat)
  | framesSettled (iterations : Nat)
  | livenessSettled (iterations : Nat)
  /-- A variable shares its slot with another one and is split. -/
  | scopeSplit (slot first last : Nat)
  | entriesRemoved (count : Nat) (method : UnqualifiedName)
  | namesCollide (count : Nat)
  | generating (owner : BinaryName) (method : UnqualifiedName) (descriptor : String)
  | generated (count : Nat)
  | failed (error : Error)
  | batchFinished (modified classes failures : Nat)
  deriving DecidableEq

/-- How much an event matters. -/
def Event.level : Event → Level
  | .failed _ => .error
  | .emptyLoad _ _ | .emptyIncrement _ => .warn
  | .resolved _ _ | .scopeSplit _ _ _ => .trace
  | _ => .debug

/-- The wording of an event. -/
def Event.message : Event → String
  | .resolved name tier => s!"Resolved {name} from {tier}"
  | .emptyLoad slot assumed => s!"Load from empty local {slot}, assuming {assumed.label}"
  | .emptyIncrement slot => s!"Increment of empty local {slot}, assuming int"
  | .framesSettled iterations => s!"Frames stabilised after {iterations} iterations"
  | .livenessSettled iterations => s!"Liveness stabilised after {iterations} iterations"
  | .scopeSplit slot first last =>
      s!"Splitting variable in slot {slot} over {first}..={last} into separate scopes"
  | .entriesRemoved count method => s!"Removed {count} invalid entries from {method}"
  | .namesCollide count => s!"Disambiguating {count} colliding names"
  | .generating owner method descriptor =>
      s!"Generating local variables for {owner}.{method}{descriptor}"
  | .generated count => s!"Generated {count} local variables"
  | .failed error => error.message
  | .batchFinished modified classes failures =>
      s!"Modified {modified} of {classes} classes ({failures} failures)"

end LocalTable
