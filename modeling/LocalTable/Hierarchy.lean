import LocalTable.Class

/-!
# Class hierarchies

Classes come in tiers: the artifact under analysis, the libraries that it was
compiled against, and the platform.  A class is defined by the first tier that
has it.  Nothing requires the supertypes of a class to be defined, nor the
supertype links to be free of cycles.
-/

namespace LocalTable

/-- A named collection of classes with at most one class of each name. -/
structure Tier where
  name : String
  classes : List ClassData
  deriving DecidableEq

namespace Tier

/-- Add a class in place of an earlier one of the same name. -/
def add (tier : Tier) (data : ClassData) : Tier :=
  { tier with classes := tier.classes.filter (·.name != data.name) ++ [data] }

/-- The tier of the given classes, of which the last one of each name counts. -/
def ofList (name : String) (classes : List ClassData) : Tier :=
  classes.foldl add ⟨name, []⟩

/-- The class of the given name. -/
def find? (tier : Tier) (name : BinaryName) : Option ClassData :=
  tier.classes.find? (·.name == name)

end Tier

/-- Tiers of classes, searched in order. -/
structure Hierarchy where
  tiers : List Tier
  deriving DecidableEq

namespace Hierarchy

/-- The first definition of a class, with the name of its tier. -/
def locate? (hierarchy : Hierarchy) (name : BinaryName) : Option (String × ClassData) :=
  hierarchy.tiers.findSome? fun tier => (tier.find? name).map (tier.name, ·)

/-- The first definition of a class. -/
def find? (hierarchy : Hierarchy) (name : BinaryName) : Option ClassData :=
  (hierarchy.locate? name).map Prod.snd

/-- All names that occur as supertypes of a class. -/
def mentioned (hierarchy : Hierarchy) : List BinaryName :=
  hierarchy.tiers.flatMap fun tier => tier.classes.flatMap ClassData.supertypes

/-- Number of supertypes that have not been seen. -/
def unseen (hierarchy : Hierarchy) (seen : List BinaryName) : Nat :=
  hierarchy.mentioned.countP fun name => !seen.contains name

theorem mem_mentioned {hierarchy : Hierarchy} {name supertype : BinaryName}
    {data : ClassData} (found : hierarchy.find? name = some data)
    (member : supertype ∈ data.supertypes) : supertype ∈ hierarchy.mentioned := by
  simp only [find?, locate?, Option.map_eq_some_iff, List.findSome?_eq_some_iff] at found
  obtain ⟨located, ⟨before, tier, after, split, ⟨defined, inTier, rfl⟩, _⟩, rfl⟩ := found
  simp only [mentioned, List.mem_flatMap]
  exact ⟨tier, by simp [split], defined, List.mem_of_find?_eq_some inTier, member⟩

/-- Seeing a supertype for the first time leaves fewer unseen ones. -/
theorem unseen_append_lt {hierarchy : Hierarchy} {fresh seen : List BinaryName}
    {name : BinaryName} (mention : name ∈ hierarchy.mentioned)
    (isFresh : name ∈ fresh) (isUnseen : seen.contains name = false) :
    hierarchy.unseen (fresh ++ seen) < hierarchy.unseen seen := by
  unfold unseen
  obtain ⟨before, after, split⟩ := List.append_of_mem mention
  have smaller (names : List BinaryName) :
      names.countP (fun other => !(fresh ++ seen).contains other) ≤
        names.countP fun other => !seen.contains other :=
    List.countP_mono_left fun other _ absent => by
      simp only [List.contains_eq_mem, List.mem_append, not_or, Bool.not_eq_true',
        decide_eq_false_iff_not] at absent ⊢
      exact absent.2
  have left := smaller before
  have right := smaller after
  have gone : (fresh ++ seen).contains name = true := by simp [isFresh]
  simp only [split, List.countP_append, List.countP_cons, gone, isUnseen]
  simp only [Bool.not_true, Bool.not_false, if_true, Bool.false_eq_true, if_false]
  omega

end Hierarchy

end LocalTable
