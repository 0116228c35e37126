import LocalTable.Descriptor.Printer
import LocalTable.Naming
import LocalTable.Refine.Rules
import LocalTable.Table
import LocalTable.Table.Complete
import LocalTable.Trim

/-!
# Tables for methods

The stages from the code of a method to its table of variables: the flow of
control, the frames, the live locals, the trimmed and refined frames, the scopes
of variables, the entries of the table, and at last their names.
-/

namespace LocalTable

namespace Method

/-- The method as the subject of the analysis. -/
def body (method : Method) (owner : BinaryName) (code : Code) : Body :=
  ⟨owner, method.descriptor, method.isStatic, code⟩

/-- Does the method have a table of local variables? -/
def hasTable (method : Method) : Bool :=
  method.code.any (·.table.isSome)

/-- The method with another table, if it has code. -/
def withTable (method : Method) (entries : List Entry) : Method :=
  { method with code := method.code.map fun code => { code with table := some entries } }

end Method

namespace Query

variable {hierarchy : Hierarchy}

/-- The scopes of a method, and a note for each one that has to be split. -/
def buildScopes (flow : Flow) (frames : Frames) (maxLocals : Nat) :
    Query hierarchy (List Scope) := do
  (Scope.crossed (Scope.merged flow frames maxLocals)).forM fun scope =>
    tell (.scopeSplit scope.slot scope.first scope.last)
  return Scope.build flow frames maxLocals

/-- The live locals of a method, and a note on how many sweeps they took. -/
def computeLiveness (body : Body) (flow : Flow) (frames : Frames) :
    Query hierarchy Liveness := do
  let (liveness, sweeps) :=
    Liveness.compute body.instructions flow frames body.code.maxLocals
  tell (.livenessSettled sweeps)
  return liveness

/-- The scopes of the variables of a method. -/
def analyze (body : Body) : Query hierarchy (List Scope) := do
  let branches ← ofExcept (Flow.ofCode body.code)
  let (frames, thrown) ← computeFrames body branches
  let flow := (thrown.protect body.instructions).closeBlocks
  let liveness ← computeLiveness body flow frames
  let refined ← refine body flow (frames.trim flow liveness)
  buildScopes flow refined body.code.maxLocals

end Query

namespace Edit

variable {hierarchy : Hierarchy}

/-- Place the labels that the entries of a table need, and give these entries, with
placeholder names.  The table of the method is left as it is. -/
def generateEntries (owner : BinaryName) : Edit hierarchy (List Entry) := do
  let method ← get
  match method.code with
  | none => return []
  | some code =>
      let scopes ← ask (.analyze (method.body owner code))
      let (labelled, entries) ← ask (.ofExcept (code.attach scopes))
      set { method with code := some labelled }
      return entries

/-- Drop the superfluous entries of the table, count them, and note how many there
were. -/
def pruneEntries : Edit hierarchy Nat := do
  let method ← get
  let (pruned, removed) := method.prune
  set pruned
  if 0 < removed then
    tell (.entriesRemoved removed method.name)
  return removed

/-- Generate the table of the method, without proper names. -/
def generateTable (owner : BinaryName) (settings : Settings) : Edit hierarchy Unit := do
  let method ← get
  tell (.generating owner method.name method.descriptor.render)
  let entries ← generateEntries owner
  tell (.generated entries.length)
  modify (·.withTable entries)
  if settings.removeInvalidEntries then
    discard pruneEntries

/-- Name the variables of the table, if there is one, and tell whether the method
has changed. -/
def nameTable (settings : Settings) (generated : Bool) : Edit hierarchy Bool := do
  if (← get).hasTable then
    nameVariables settings generated
    return generated || settings.obfuscateNames
  else
    return generated

/-- Make sure that the method has a table with names, and tell whether it changed.
A complete table is only renamed, if all names are to be replaced. -/
def processMethod (owner : BinaryName) (settings : Settings) : Edit hierarchy Bool := do
  let incomplete := !(← get).isComplete
  if incomplete then
    generateTable owner settings
  nameTable settings incomplete

end Edit

namespace Query

variable {hierarchy : Hierarchy}

/-- The entries for a method, with placeholder names, and the method with the
labels that they need.  Its own table is left as it is. -/
def generateEntries (owner : BinaryName) (method : Method) :
    Query hierarchy (Method × List Entry) :=
  (Edit.generateEntries owner).apply method

/-- Drop the superfluous entries of a table, count them, and note how many there
were. -/
def pruneEntries (method : Method) : Query hierarchy (Method × Nat) :=
  Edit.pruneEntries.apply method

/-- Make sure that a method has a table with names, and tell whether it changed. -/
def processMethod (owner : BinaryName) (method : Method) (settings : Settings) :
    Query hierarchy (Method × Bool) :=
  (Edit.processMethod owner settings).apply method

end Query

end LocalTable
