import LocalTable.Parameter

/-!
# Complete tables and superfluous entries

A table of variables is complete if it covers all slots of its method, and the
receiver among them.

An entry in the slots of the parameters describes a parameter only if it is in
the first slot of one, and only the first such entry of each slot counts.
-/

namespace LocalTable

namespace Method

/-- Does the method already have a table that covers all of its slots?  Methods
without code or without locals need none. -/
def isComplete (method : Method) : Bool :=
  match method.code with
  | none => true
  | some code =>
      if method.isAbstract || code.maxLocals = 0 then
        true
      else
        match code.table with
        | none | some [] => false
        | some entries =>
            (method.isStatic || entries.any fun entry => entry.slot = 0) &&
              (entries.map fun entry => entry.slot + entry.type.width).foldl max 0 =
                code.maxLocals

/-- The entries that can describe what they are in the slot of, given the slots
of the entries before them. -/
def canonical (method : Method) (seen : List Nat) : List Entry → List Entry
  | [] => []
  | entry :: rest =>
      let following := method.canonical (entry.slot :: seen) rest
      match method.role entry.slot with
      | .free => entry :: following
      | .upperHalf => following
      | .receiver | .parameter _ =>
          if seen.contains entry.slot then following else entry :: following

/-- Drop the superfluous entries of the table, and count them. -/
def prune (method : Method) : Method × Nat :=
  match method.code with
  | none => (method, 0)
  | some code =>
      match code.table with
      | none => (method, 0)
      | some entries =>
          let kept := method.canonical [] entries
          ({ method with code := some { code with table := some kept } },
            entries.length - kept.length)

end Method

end LocalTable
