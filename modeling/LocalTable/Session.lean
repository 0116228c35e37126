import LocalTable.Query

/-!
# Sessions

A session answers queries over one hierarchy.  It remembers every class that it
has found, so that a class is searched for only once, and it keeps the log of
the events that the queries note.  Finding a class for the first time is an
event of its own.
-/

namespace LocalTable

/-- Definitions found so far, and the events noted so far, the latest first. -/
structure Session (hierarchy : Hierarchy) where
  found : List { known : BinaryName × ClassData // hierarchy.find? known.1 =
    some known.2 }
  events : List Event

namespace Session

variable {hierarchy : Hierarchy} {α : Type}

/-- A session that has found nothing yet. -/
def fresh : Session hierarchy :=
  ⟨[], []⟩

/-- The definition of a class that was found before. -/
def known? (session : Session hierarchy) (name : BinaryName) :
    Option { data : ClassData // hierarchy.find? name = some data } :=
  session.found.findSome? fun ⟨known, sound⟩ =>
    if same : known.1 = name then some ⟨known.2, same ▸ sound⟩ else none

/-- Remember a definition that was found in a tier. -/
def remember (session : Session hierarchy) (name : BinaryName) (data : ClassData)
    (sound : hierarchy.find? name = some data) : Session hierarchy :=
  let tier := ((hierarchy.locate? name).map Prod.fst).getD ""
  { found := ⟨(name, data), sound⟩ :: session.found
    events := .resolved name tier :: session.events }

/-- Answer a query, and keep what was found and noted on the way. -/
def run : Query hierarchy α → Session hierarchy → Except Error α × Session hierarchy
  | .done value, session => (.ok value, session)
  | .fail error, session => (.error error, session)
  | .note event rest, session =>
    run rest { session with events := event :: session.events }
  | .ask name rest, session =>
      match session.known? name with
      | some ⟨data, sound⟩ => run (rest (some data) sound) session
      | none =>
          match sound : hierarchy.find? name with
          | some data => run (rest (some data) sound) (session.remember name data sound)
          | none => run (rest none sound) session

/-- The events in the order in which they were noted. -/
def log (session : Session hierarchy) : List Event :=
  session.events.reverse

end Session

end LocalTable
