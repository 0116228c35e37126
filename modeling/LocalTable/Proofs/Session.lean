import Mathlib.Data.List.Nodup
import LocalTable.Proofs.Subtyping
import LocalTable.Session

/-!
# Sessions answer as the tiers do

What a session remembers is what the tiers hold, so its answers do not depend on what it
was asked before.  It notes where it has found a class when it remembers it, and it never
searches for a class that it remembers.  So there is one note for each class that it has
found, however many questions led to it.
-/

namespace LocalTable

/-! ## The first tier that has a class -/

namespace Hierarchy

variable {hierarchy : Hierarchy} {name : BinaryName} {data : ClassData}

/-- The class is defined by this tier, and no tier before it has the class. -/
def FirstDefinedBy (hierarchy : Hierarchy) (tier : Tier) (name : BinaryName)
    (data : ClassData) :
    Prop :=
  ∃ before after, hierarchy.tiers = before ++ tier :: after ∧
    (∀ earlier ∈ before, earlier.find? name = none) ∧ tier.find? name = some data

theorem locate?_eq_some {label : String} :
    hierarchy.locate? name = some (label, data) ↔
      ∃ tier, hierarchy.FirstDefinedBy tier name data ∧ tier.name = label := by
  simp only [locate?, List.findSome?_eq_some_iff, Option.map_eq_some_iff,
    Option.map_eq_none_iff]
  constructor
  · rintro ⟨before, tier, after, split, ⟨defined, found, isLocated⟩, absent⟩
    obtain ⟨isLabel, rfl⟩ := Prod.mk.inj isLocated
    exact ⟨tier, ⟨before, after, split, absent, found⟩, isLabel⟩
  · rintro ⟨tier, ⟨before, after, split, absent, found⟩, rfl⟩
    exact ⟨before, tier, after, split, ⟨data, found, rfl⟩, absent⟩

theorem find?_eq_some :
    hierarchy.find? name = some data ↔ ∃ tier,
      hierarchy.FirstDefinedBy tier name data := by
  rw [find?, Option.map_eq_some_iff]
  constructor
  · rintro ⟨⟨label, defined⟩, located, rfl⟩
    obtain ⟨tier, isFirst, _⟩ := locate?_eq_some.mp located
    exact ⟨tier, isFirst⟩
  · rintro ⟨tier, isFirst⟩
    exact ⟨(tier.name, data), locate?_eq_some.mpr ⟨tier, isFirst, rfl⟩, rfl⟩

theorem find?_eq_none :
    hierarchy.find? name = none ↔ ∀ tier ∈ hierarchy.tiers, tier.find? name = none := by
  simp [find?, locate?]

end Hierarchy

/-- Is this the note that the class was found? -/
def Event.resolves (name : BinaryName) : Event → Bool
  | .resolved found _ => found = name
  | _ => false

namespace Session

variable {hierarchy : Hierarchy} {α : Type}

/-- The answer of a query is the same in every session. -/
theorem run_fst (query : Query hierarchy α) (session : Session hierarchy) :
    (run query session).1 = query.eval := by
  induction query generalizing session with
  | done value => rfl
  | fail error => rfl
  | note event rest ih => exact ih _
  | ask name rest ih =>
      have same (answer : Option ClassData) (sound : hierarchy.find? name = answer) :
          (rest answer sound).eval = (rest (hierarchy.find? name) rfl).eval := by
        subst sound
        rfl
      unfold run
      split
      next data sound known => exact (ih _ _ _).trans (same _ sound)
      next =>
        split
        next data sound => exact (ih _ _ _).trans (same _ sound)
        next sound => exact (ih _ _ _).trans (same _ sound)

/-! ## What is noted -/

/-- The note that a class was found in its tier. -/
def resolution (hierarchy : Hierarchy) (name : BinaryName) : Event :=
  .resolved name (((hierarchy.locate? name).map Prod.fst).getD "")

/-- Classes that the session has found. -/
def foundNames (session : Session hierarchy) : List BinaryName :=
  session.found.map fun known => known.val.1

/-- The session has noted just the classes that it has found, each of them once. -/
structure Recorded (session : Session hierarchy) : Prop where
  nodup : session.foundNames.Nodup
  events_eq : session.events = session.foundNames.map (resolution hierarchy)

theorem recorded_fresh : (fresh : Session hierarchy).Recorded :=
  ⟨List.nodup_nil, rfl⟩

theorem not_mem_foundNames {session : Session hierarchy} {name : BinaryName}
    (unknown : session.known? name = none) : name ∉ session.foundNames := by
  intro member
  obtain ⟨known, isFound, rfl⟩ := List.mem_map.mp member
  have absent := List.findSome?_eq_none_iff.mp unknown known isFound
  simp at absent

/-- A class is remembered and noted when it is found for the first time. -/
theorem Recorded.remember {session : Session hierarchy} {name : BinaryName}
    {data : ClassData} (recorded : session.Recorded)
    (unknown : session.known? name = none) (sound : hierarchy.find? name = some data) :
    (session.remember name data sound).Recorded :=
  ⟨List.nodup_cons.mpr ⟨not_mem_foundNames unknown, recorded.nodup⟩,
    congrArg (resolution hierarchy name :: ·) recorded.events_eq⟩

/-- Looking classes up notes the new ones and nothing else. -/
theorem Recorded.run {query : Query hierarchy α} {session : Session hierarchy}
    (looksUp : query.LooksUp) (recorded : session.Recorded) :
    (run query session).2.Recorded := by
  induction looksUp generalizing session with
  | done value => exact recorded
  | missing isMissing => exact recorded
  | ask each ih =>
      unfold Session.run
      split
      next => exact ih _ _ recorded
      next unknown =>
        split
        next data sound => exact ih _ _ (recorded.remember unknown sound)
        next => exact ih _ _ recorded

/-! ## Conversations -/

/-- What a session can be asked about the classes of its hierarchy. -/
inductive Question where
  | resolve (name : BinaryName)
  | isInterface (name : BinaryName)
  | isSubclass (subclass superclass : BinaryName)
  | commonSuperclass (left right : BinaryName)
  | commonRefType (left right : RefType)
  | join (left right : ValueType)
  deriving DecidableEq

/-- What a question is answered with. -/
def Question.Answer : Question → Type
  | .resolve _ => ClassData
  | .isInterface _ | .isSubclass _ _ => Bool
  | .commonSuperclass _ _ => BinaryName
  | .commonRefType _ _ => RefType
  | .join _ _ => Option ValueType

/-- The query that answers a question. -/
def Question.query (hierarchy : Hierarchy) :
    (question : Question) → Query hierarchy question.Answer
  | .resolve name => .resolve name
  | .isInterface name => .isInterface name
  | .isSubclass subclass superclass => .isSubclass subclass superclass
  | .commonSuperclass left right => .commonSuperclass left right
  | .commonRefType left right => .commonRefType left right
  | .join left right => .join left right

theorem Question.looksUp_query (question : Question) :
    (question.query hierarchy).LooksUp := by
  cases question with
  | resolve name => exact Query.looksUp_resolve name
  | isInterface name => exact Query.looksUp_isInterface name
  | isSubclass subclass superclass => exact Query.looksUp_isSubclass subclass superclass
  | commonSuperclass left right => exact Query.looksUp_commonSuperclass left right
  | commonRefType left right => exact Query.looksUp_commonRefType left right
  | join left right => exact Query.looksUp_join left right

/-- A question and the outcome of its query. -/
abbrev Reply := (question : Question) × Except Error question.Answer

/-- Answer questions one after the other in the same session.  A question that fails does
not end the session. -/
def converse : List Question → Session hierarchy → List Reply × Session hierarchy
  | [], session => ([], session)
  | question :: rest, session =>
      let (outcome, session) := run (question.query hierarchy) session
      let (replies, session) := converse rest session
      (⟨question, outcome⟩ :: replies, session)

theorem converse_fst (questions : List Question) (session : Session hierarchy) :
    (converse questions session).1 =
      questions.map fun question => ⟨question, (question.query hierarchy).eval⟩ := by
  induction questions generalizing session with
  | nil => rfl
  | cons question rest ih =>
      simp only [converse, List.map_cons, run_fst, ih]

theorem Recorded.converse {session : Session hierarchy} (recorded : session.Recorded)
    (questions : List Question) : (session.converse questions).2.Recorded := by
  induction questions generalizing session with
  | nil => exact recorded
  | cons question rest ih => exact ih (recorded.run question.looksUp_query)

theorem Recorded.countP_log {session : Session hierarchy} (recorded : session.Recorded)
    (name : BinaryName) : session.log.countP (Event.resolves name) ≤ 1 := by
  have counted : session.log.countP (Event.resolves name) =
      session.foundNames.count name := by
    rw [log, List.countP_reverse, recorded.events_eq, List.countP_map]
    exact List.countP_congr fun found _ => by simp [resolution, Event.resolves]
  rw [counted]
  exact List.nodup_iff_count_le_one.mp recorded.nodup name

theorem Recorded.exists_firstDefinedBy {session : Session hierarchy} {name : BinaryName}
    {label : String} (recorded : session.Recorded)
    (noted : .resolved name label ∈ session.log) :
    ∃ tier data, hierarchy.FirstDefinedBy tier name data ∧ tier.name = label := by
  rw [log, List.mem_reverse, recorded.events_eq] at noted
  obtain ⟨found, member, isNote⟩ := List.mem_map.mp noted
  obtain ⟨known, isKnown, rfl⟩ := List.mem_map.mp member
  obtain ⟨rfl, isLabel⟩ := Event.resolved.inj isNote
  obtain ⟨⟨place, data⟩, located, isData⟩ := Option.map_eq_some_iff.mp known.property
  obtain ⟨tier, isFirst, isPlace⟩ := Hierarchy.locate?_eq_some.mp located
  refine ⟨tier, data, isFirst, isPlace.trans ?_⟩
  rw [located] at isLabel
  exact isLabel

theorem eval_resolve (name : BinaryName) :
    (∃ tier data, hierarchy.FirstDefinedBy tier name data ∧
        (Query.resolve name : Query hierarchy _).eval = .ok data) ∨
      (∀ tier ∈ hierarchy.tiers, tier.find? name = none) ∧
        (Query.resolve name : Query hierarchy _).eval =
          .error (.unresolvedClass name) := by
  rcases Query.eval_demand_cases fun data (_ : hierarchy.find? name = some data) =>
      .done data with
    ⟨data, found, answered⟩ | ⟨isMissing, failed⟩
  · obtain ⟨tier, isFirst⟩ := Hierarchy.find?_eq_some.mp found
    exact .inl ⟨tier, data, isFirst, answered⟩
  · exact .inr ⟨Hierarchy.find?_eq_none.mp isMissing, failed⟩

/-- Whatever a session is asked one after the other, each reply is the one that a fresh
session gives to this question alone.  A class that is asked for is what the first tier
that has it says, and is missing only if no tier has it.  The session notes no class
twice, and each note names the first tier that has the class. -/
theorem replies_are_those_of_fresh_sessions (hierarchy : Hierarchy)
    (questions : List Question) :
    ∃ replies session, converse questions (fresh : Session hierarchy) =
      (replies, session) ∧
      replies = questions.map (fun question =>
        ⟨question, (run (question.query hierarchy) fresh).1⟩) ∧
      (∀ name outcome, ⟨.resolve name, outcome⟩ ∈ replies →
        (∃ tier data, hierarchy.FirstDefinedBy tier name data ∧ outcome = .ok data) ∨
          (∀ tier ∈ hierarchy.tiers, tier.find? name = none) ∧
            outcome = .error (.unresolvedClass name)) ∧
      (∀ name label, .resolved name label ∈ session.log →
        ∃ tier data, hierarchy.FirstDefinedBy tier name data ∧ tier.name = label) ∧
      ∀ name, session.log.countP (Event.resolves name) ≤ 1 := by
  have recorded : (converse questions (fresh : Session hierarchy)).2.Recorded :=
    recorded_fresh.converse questions
  refine ⟨_, _, rfl, ?_, ?_, fun _ _ => recorded.exists_firstDefinedBy,
    recorded.countP_log⟩
  · simp only [converse_fst, run_fst]
  · intro name outcome isReply
    rw [converse_fst] at isReply
    obtain ⟨question, _, same⟩ := List.mem_map.mp isReply
    cases same
    exact eval_resolve name

end Session

end LocalTable
