import LocalTable.Proofs.Subtyping

/-!
# The search for a superclass decides

The search keeps what it has seen closed: each class that was seen is still pending, or
was looked at and has only supertypes that were seen.  When nothing is pending and the
target was not met, no chain of supertypes leads to it.  The search fails only at a
class that no tier defines.
-/

namespace LocalTable

namespace Hierarchy

variable {hierarchy : Hierarchy} {name above : BinaryName}

/-- All classes that the chains of supertypes of a class lead to are defined. -/
def Resolves (hierarchy : Hierarchy) (name : BinaryName) : Prop :=
  ∀ above, Relation.ReflTransGen hierarchy.Extends name above →
    ∃ data, hierarchy.find? above = some data

theorem Resolves.of_chain (resolves : hierarchy.Resolves name)
    (chain : Relation.ReflTransGen hierarchy.Extends name above) :
    hierarchy.Resolves above := by
  intro further onwards
  exact resolves further (chain.trans onwards)

/-- All supertypes of the classes are defined. -/
def Closed (hierarchy : Hierarchy) : Prop :=
  ∀ name data superclass, hierarchy.find? name = some data →
    superclass ∈ data.supertypes →
    ∃ other, hierarchy.find? superclass = some other

theorem Closed.resolves (closed : hierarchy.Closed) {data : ClassData}
    (found : hierarchy.find? name = some data) : hierarchy.Resolves name := by
  intro above chain
  induction chain with
  | refl => exact ⟨data, found⟩
  | tail _ isExtended _ =>
      rcases isExtended with ⟨other, otherFound, member⟩
      exact closed _ other _ otherFound member

end Hierarchy

namespace Query

variable {hierarchy : Hierarchy} {target : BinaryName} {pending seen : List BinaryName}

/-- Each class that was seen is pending, or is not the target and has its supertypes among
the classes that were seen. -/
def Explored (hierarchy : Hierarchy) (target : BinaryName)
    (pending seen : List BinaryName) :
    Prop :=
  ∀ name ∈ seen, name ∈ pending ∨
    name ≠ target ∧ ∀ superclass, hierarchy.Extends name superclass → superclass ∈ seen

theorem Explored.look {name : BinaryName} {rest : List BinaryName} {data : ClassData}
    (explored : Explored hierarchy target (name :: rest) seen) (isOther : name ≠ target)
    (found : hierarchy.find? name = some data) :
    Explored hierarchy target ((unseenSupertypes data seen).reverse ++ rest)
      (unseenSupertypes data seen ++ seen) := by
  intro other member
  rcases List.mem_append.mp member with isFresh | wasSeen
  · apply Or.inl
    simp [isFresh]
  · rcases explored other wasSeen with isPending | ⟨notTarget, closed⟩
    · rcases List.mem_cons.mp isPending with rfl | isPending
      · apply Or.inr
        refine ⟨isOther, ?_⟩
        rintro superclass ⟨otherData, otherFound, isSuperclass⟩
        cases found.symm.trans otherFound
        by_cases isSeen : superclass ∈ seen
        · exact List.mem_append_right _ isSeen
        · apply List.mem_append_left
          simp [unseenSupertypes, isSuperclass, isSeen]
      · apply Or.inl
        exact List.mem_append_right _ isPending
    · apply Or.inr
      refine ⟨notTarget, ?_⟩
      intro superclass isExtended
      exact List.mem_append_right _ (closed superclass isExtended)

/-- A search that ends without its target leaves no chain to it. -/
theorem not_chain_of_reaches {name : BinaryName}
    (explored : Explored hierarchy target pending seen)
    (answered : (reaches target pending seen : Query hierarchy Bool).eval = .ok false)
    (member : name ∈ seen) : ¬Relation.ReflTransGen hierarchy.Extends name target := by
  fun_induction reaches target pending seen with
  | case1 seen =>
      intro chain
      induction chain using Relation.ReflTransGen.head_induction_on with
      | refl =>
          rcases explored target member with impossible | ⟨notTarget, _⟩
          · cases impossible
          · exact notTarget rfl
      | head isExtended _ ih =>
          rcases explored _ member with impossible | ⟨_, closed⟩
          · cases impossible
          · exact ih (closed _ isExtended)
  | case2 => cases answered
  | case3 seen first rest isOther ih =>
      rcases eval_demand_eq_ok answered with ⟨data, found, answered⟩
      exact ih data found (explored.look isOther found) answered
        (List.mem_append_right _ member)

theorem exists_reaches (resolves : ∀ name ∈ pending, hierarchy.Resolves name) :
    ∃ answer, (reaches target pending seen : Query hierarchy Bool).eval = .ok answer := by
  fun_induction reaches target pending seen with
  | case1 => exact ⟨false, rfl⟩
  | case2 => exact ⟨true, rfl⟩
  | case3 seen name rest _ ih =>
      have resolvesName := resolves name (List.mem_cons_self ..)
      rcases resolvesName name .refl with ⟨data, found⟩
      rw [eval_demand_of_found found]
      apply ih data found
      intro other member
      rcases List.mem_append.mp member with isFresh | isPending
      · have isExtended := extends_of_mem_unseenSupertypes found
          (List.mem_reverse.mp isFresh)
        exact resolvesName.of_chain (.single isExtended)
      · exact resolves other (List.mem_cons_of_mem _ isPending)

theorem isSubclass_eq_ok {subclass superclass : BinaryName} {answer : Bool}
    (answered : (isSubclass subclass superclass : Query hierarchy Bool).eval =
      .ok answer) :
    answer = true ↔ hierarchy.Subclass subclass superclass := by
  constructor
  · intro isTrue
    rw [isTrue] at answered
    exact subclass_of_isSubclass answered
  · intro below
    unfold isSubclass at answered
    split at answered
    next =>
      cases answered
      rfl
    next notObvious =>
      rw [not_or] at notObvious
      have chain := below.resolve_left notObvious.1
      have explored : Explored hierarchy superclass [subclass] [subclass] :=
        fun name member => .inl member
      cases answer with
      | true => rfl
      | false => exact absurd chain (not_chain_of_reaches explored answered (by simp))

/-- The search answers whether a class is a subtype, if all classes above it are
defined. -/
theorem eval_isSubclass {subclass : BinaryName} (resolves : hierarchy.Resolves subclass)
    (superclass : BinaryName) :
    ∃ answer, (isSubclass subclass superclass : Query hierarchy Bool).eval = .ok answer ∧
      (answer = true ↔ hierarchy.Subclass subclass superclass) := by
  have answers : ∃ answer,
      (isSubclass subclass superclass : Query hierarchy Bool).eval = .ok answer := by
    unfold isSubclass
    split
    · exact ⟨true, rfl⟩
    · apply exists_reaches
      simpa using resolves
  rcases answers with ⟨answer, answered⟩
  exact ⟨answer, answered, isSubclass_eq_ok answered⟩

theorem eval_isSubclass_of_below {subclass superclass : BinaryName}
    (resolves : hierarchy.Resolves subclass)
    (below : hierarchy.Subclass subclass superclass) :
    (isSubclass subclass superclass : Query hierarchy Bool).eval = .ok true := by
  rcases eval_isSubclass resolves superclass with ⟨answer, answered, decides⟩
  rw [answered, decides.mpr below]

theorem eval_isSubclass_of_not_below {subclass superclass : BinaryName}
    (resolves : hierarchy.Resolves subclass)
    (notBelow : ¬hierarchy.Subclass subclass superclass) :
    (isSubclass subclass superclass : Query hierarchy Bool).eval = .ok false := by
  rcases eval_isSubclass resolves superclass with ⟨answer, answered, decides⟩
  rw [answered, Bool.eq_false_iff.mpr fun isTrue => notBelow (decides.mp isTrue)]

end Query

end LocalTable
