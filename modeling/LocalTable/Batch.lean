import LocalTable.Generate
import LocalTable.Hierarchy.Platform

/-!
# Batches of classes

A batch fills in the tables of all methods of some classes.  The classes see
each other, the libraries that they were compiled against, and the platform.  A
method that fails is left as it was and reported; the others go on.  Only if the
analysis of a method breaks down, the whole batch does.
-/

namespace LocalTable

/-- What became of a batch: the classes that have changed, and the methods that
have failed. -/
structure Report where
  modified : List BinaryName
  failures : List Error

namespace Batch

/-- The hierarchy that the classes of a batch see. -/
def hierarchy (classes : List Class) (libraries : List Tier) : Hierarchy :=
  .withPlatform (.ofList "artifact" (classes.map Class.data)) libraries

/-- A method after the batch, whether it has changed, and why it failed if it did. -/
structure Processed where
  method : Method
  changed : Bool
  failure : Option Error

/-- A class after the batch, whether it has changed, and why methods failed. -/
structure ProcessedClass where
  declared : Class
  changed : Bool
  failures : List Error

end Batch

namespace Query

variable {hierarchy : Hierarchy}

/-- Process a method of a batch.  If that fails, but does not break down, put the
method back as it was and report the failure. -/
def processAndReport (owner : BinaryName) (method : Method) (settings : Settings) :
    Query hierarchy Batch.Processed := do
  match ← (processMethod owner method settings).outcome with
  | .ok (processed, changed) => return ⟨processed, changed, none⟩
  | .error cause =>
      if cause.isBreakdown then
        .fail cause
      else
        let failure := Error.method owner method.name method.descriptor.render cause
        tell (.failed failure)
        return ⟨method, false, some failure⟩

/-- Process all methods of a class. -/
def processClass (declared : Class) (settings : Settings) :
    Query hierarchy Batch.ProcessedClass := do
  let processed ← declared.methods.mapM (processAndReport declared.name · settings)
  return { declared := { declared with methods := processed.map (·.method) }
           changed := processed.any (·.changed)
           failures := processed.filterMap (·.failure) }

/-- Process all classes of a batch. -/
def processClasses (classes : List Class) (settings : Settings) :
    Query hierarchy (List Class × Report) := do
  let processed ← classes.mapM (processClass · settings)
  let modified := processed.filter (·.changed)
  let failures := processed.flatMap (·.failures)
  tell (.batchFinished modified.length classes.length failures.length)
  return (processed.map (·.declared), ⟨modified.map (·.declared.name), failures⟩)

end Query

namespace Batch

/-- Fill in the tables of all methods of the classes. -/
def run (settings : Settings) (libraries : List Tier) (classes : List Class) :
    Query (hierarchy classes libraries) (List Class × Report) :=
  Query.processClasses classes settings

end Batch

end LocalTable
