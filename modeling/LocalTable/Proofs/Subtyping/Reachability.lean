import Mathlib.Data.List.Perm.Subperm
import LocalTable.Proofs.Session
import LocalTable.Proofs.Subtyping.Search

/-!
# The search for a superclass on any hierarchy

Nothing is asked of the hierarchy here: supertypes may be missing, and their links may
run in circles.  The search puts a class on its stack at most once, so it asks for each
class at most once, and only for classes that the chains of supertypes lead to.  If it
fails, one of these is missing.  If it answers, it tells whether such a chain leads to
the target.
-/

namespace LocalTable

namespace Query

variable {hierarchy : Hierarchy} {α : Type}

/-- The classes that a query asks for, in order. -/
def asked : Query hierarchy α → List BinaryName
  | .done _ | .fail _ => []
  | .note _ rest => rest.asked
  | .ask name rest =>
      name ::
        match sound : hierarchy.find? name with
        | some data => (rest (some data) sound).asked
        | none => (rest none sound).asked

section Demand

variable {name : BinaryName}
  {next : (data : ClassData) → hierarchy.find? name = some data → Query hierarchy α}

theorem asked_demand_of_found {data : ClassData}
    (found : hierarchy.find? name = some data) :
    (demand name next).asked = name :: (next data found).asked := by
  rw [demand, asked]
  split
  next other alsoFound =>
    cases found.symm.trans alsoFound
    rfl
  next missing => cases found.symm.trans missing

theorem asked_demand_of_missing (missing : hierarchy.find? name = none) :
    (demand name next).asked = [name] := by
  rw [demand, asked]
  split
  next found => cases missing.symm.trans found
  next => rfl

/-- A query that needs a class asks for it.  It goes on if the class is found, and fails
at once if it is missing. -/
theorem demand_induction {P : List BinaryName → Except Error α → Prop}
    (missing : hierarchy.find? name = none → P [name] (.error (.unresolvedClass name)))
    (found : ∀ data isFound, P (name :: (next data isFound).asked)
      (next data isFound).eval) :
    P (demand name next).asked (demand name next).eval := by
  rcases eval_demand_cases next with ⟨data, isFound, isEval⟩ | ⟨isMissing, isEval⟩
  · rw [isEval, asked_demand_of_found isFound]
    exact found data isFound
  · rw [isEval, asked_demand_of_missing isMissing]
    exact missing isMissing

end Demand

section Search

variable {target : BinaryName} {pending seen : List BinaryName}

/-- Chains of supertypes lead from the pending classes to all that is asked for. -/
theorem chain_of_mem_asked :
    ∀ name ∈ (reaches target pending seen : Query hierarchy Bool).asked,
      ∃ first ∈ pending, Relation.ReflTransGen hierarchy.Extends first name := by
  fun_induction reaches target pending seen with
  | case1 | case2 => simp [asked]
  | case3 seen first rest _ ih =>
      have isFirst : ∃ other ∈ first :: rest,
          Relation.ReflTransGen hierarchy.Extends other first :=
        ⟨first, List.mem_cons_self .., .refl⟩
      refine demand_induction (P := fun names _ => ∀ name ∈ names,
        ∃ other ∈ first :: rest, Relation.ReflTransGen hierarchy.Extends other name) ?_ ?_
      · intro _
        simpa only [List.forall_mem_singleton] using isFirst
      · intro data found
        rw [List.forall_mem_cons]
        refine ⟨isFirst, fun name member => ?_⟩
        obtain ⟨other, isPending, chain⟩ := ih data found name member
        rcases List.mem_append.mp isPending with isFresh | isPending
        · have isExtended := extends_of_mem_unseenSupertypes found
            (List.mem_reverse.mp isFresh)
          exact ⟨first, List.mem_cons_self .., .head isExtended chain⟩
        · exact ⟨other, List.mem_cons_of_mem _ isPending, chain⟩

theorem not_mem_of_mem_unseenSupertypes {name : BinaryName} {data : ClassData}
    (member : name ∈ unseenSupertypes data seen) : name ∉ seen := by
  rw [unseenSupertypes, List.mem_eraseDups, List.mem_filter] at member
  simpa using member.2

/-- No class is asked for twice, as each is put on the stack only when it is first
seen. -/
theorem nodup_asked (distinct : pending.Nodup) (known : ∀ name ∈ pending, name ∈ seen) :
    (reaches target pending seen : Query hierarchy Bool).asked.Nodup ∧
      ∀ name ∈ (reaches target pending seen : Query hierarchy Bool).asked,
        name ∈ pending ∨ name ∉ seen := by
  fun_induction reaches target pending seen with
  | case1 | case2 => simp [asked]
  | case3 seen first rest _ ih =>
      obtain ⟨notInRest, restDistinct⟩ := List.nodup_cons.mp distinct
      obtain ⟨firstSeen, restKnown⟩ := List.forall_mem_cons.mp known
      refine demand_induction (P := fun names _ =>
        names.Nodup ∧ ∀ name ∈ names, name ∈ first :: rest ∨ name ∉ seen) (by simp) ?_
      intro data found
      have fresh {name : BinaryName}
          (member : name ∈ (unseenSupertypes data seen).reverse) :
          name ∉ seen := not_mem_of_mem_unseenSupertypes (List.mem_reverse.mp member)
      obtain ⟨askedDistinct, askedFor⟩ := ih data found
        (by
          refine List.nodup_append'.mpr ⟨?_, restDistinct,
            fun name isFresh isPending => ?_⟩
          · exact List.nodup_reverse.mpr (nodup_eraseDups _)
          · exact fresh isFresh (restKnown name isPending))
        (by
          intro name member
          rcases List.mem_append.mp member with isFresh | isPending
          · exact List.mem_append_left _ (List.mem_reverse.mp isFresh)
          · exact List.mem_append_right _ (restKnown name isPending))
      have later : ∀ name ∈ (reaches target ((unseenSupertypes data seen).reverse ++ rest)
          (unseenSupertypes data seen ++ seen) : Query hierarchy Bool).asked,
          name ∈ rest ∨ name ∉ seen := by
        intro name member
        rcases askedFor name member with isPending | isUnseen
        · rcases List.mem_append.mp isPending with isFresh | isPending
          · exact .inr (fresh isFresh)
          · exact .inl isPending
        · exact .inr fun isSeen => isUnseen (List.mem_append_right _ isSeen)
      refine ⟨List.nodup_cons.mpr ⟨fun member => ?_, askedDistinct⟩, ?_⟩
      · rcases later first member with inRest | isUnseen
        · exact notInRest inRest
        · exact isUnseen firstSeen
      · rw [List.forall_mem_cons]
        refine ⟨.inl (List.mem_cons_self ..), fun name member => ?_⟩
        exact (later name member).imp_left (List.mem_cons_of_mem _)

/-- A search fails only at a class that it asked for and that is missing. -/
theorem missing_of_reaches :
    ∀ error, (reaches target pending seen : Query hierarchy Bool).eval = .error error →
      ∃ name ∈ (reaches target pending seen : Query hierarchy Bool).asked,
        hierarchy.find? name = none ∧ error = .unresolvedClass name := by
  fun_induction reaches target pending seen with
  | case1 | case2 => simp [eval]
  | case3 seen first rest _ ih =>
      refine demand_induction (P := fun names outcome => ∀ error, outcome = .error error →
        ∃ name ∈ names, hierarchy.find? name = none ∧ error = .unresolvedClass name) ?_ ?_
      · rintro isMissing _ ⟨⟩
        exact ⟨first, List.mem_cons_self .., isMissing, rfl⟩
      · intro data found error failed
        obtain ⟨name, member, isMissing, isError⟩ := ih data found error failed
        exact ⟨name, List.mem_cons_of_mem _ member, isMissing, isError⟩

end Search

/-! ## Subclasses -/

variable {subclass superclass : BinaryName}

/-- Either nothing has to be looked up, or the search starts at the class itself. -/
theorem isSubclass_induction {P : Query hierarchy Bool → Prop} (obvious : P (.done true))
    (search : P (reaches superclass [subclass] [subclass])) :
    P (isSubclass subclass superclass) := by
  unfold isSubclass
  split
  · exact obvious
  · exact search

theorem nodup_asked_isSubclass (subclass superclass : BinaryName) :
    (isSubclass subclass superclass : Query hierarchy Bool).asked.Nodup :=
  isSubclass_induction (P := fun query => query.asked.Nodup) .nil
    (nodup_asked (List.nodup_singleton subclass) fun _ => id).1

theorem chain_of_mem_asked_isSubclass :
    ∀ name ∈ (isSubclass subclass superclass : Query hierarchy Bool).asked,
      Relation.ReflTransGen hierarchy.Extends subclass name := by
  refine isSubclass_induction (P := fun query => ∀ name ∈ query.asked,
    Relation.ReflTransGen hierarchy.Extends subclass name) (by simp [asked]) ?_
  intro name member
  obtain ⟨first, isFirst, chain⟩ := chain_of_mem_asked name member
  cases List.mem_singleton.mp isFirst
  exact chain

theorem missing_of_isSubclass :
    ∀ error, (isSubclass subclass superclass : Query hierarchy Bool).eval = .error error →
      ∃ name ∈ (isSubclass subclass superclass : Query hierarchy Bool).asked,
        hierarchy.find? name = none ∧ error = .unresolvedClass name :=
  isSubclass_induction (P := fun query => ∀ error, query.eval = .error error →
    ∃ name ∈ query.asked, hierarchy.find? name = none ∧ error = .unresolvedClass name)
    (by simp [eval]) missing_of_reaches

end Query

namespace Session

variable {hierarchy : Hierarchy}

/-- The question whether a class is a subtype of another one can be put to any session,
with any classes in its tiers.  It takes one look at each of finitely many classes at
most.  The answer tells whether the other class is the root class or is reached along
supertypes.  There is none only if a class that is reached is missing in all tiers. -/
theorem subclass_search_decides_reachability (session : Session hierarchy)
    (subclass superclass : BinaryName) :
    (Query.isSubclass subclass superclass : Query hierarchy Bool).asked.Nodup ∧
      (Query.isSubclass subclass superclass : Query hierarchy Bool).asked.length ≤
        hierarchy.mentioned.length + 1 ∧
      (∀ answer, (run (Query.isSubclass subclass superclass) session).1 = .ok answer →
        (answer = true ↔ superclass = .object ∨
          Relation.ReflTransGen hierarchy.Extends subclass superclass)) ∧
      (∀ error, (run (Query.isSubclass subclass superclass) session).1 = .error error →
        ∃ name, error = .unresolvedClass name ∧
          Relation.ReflTransGen hierarchy.Extends subclass name ∧
          ∀ tier ∈ hierarchy.tiers, tier.find? name = none) ∧
      ((∀ name, Relation.ReflTransGen hierarchy.Extends subclass name →
          ∃ tier ∈ hierarchy.tiers, (tier.find? name).isSome = true) →
        ∃ answer, (run (Query.isSubclass subclass superclass) session).1 =
          .ok answer) := by
  simp only [run_fst]
  have distinct :
      (Query.isSubclass subclass superclass : Query hierarchy Bool).asked.Nodup :=
    Query.nodup_asked_isSubclass subclass superclass
  refine ⟨distinct, ?_, fun answer answered => Query.isSubclass_eq_ok answered, ?_, ?_⟩
  · have few : (Query.isSubclass subclass superclass : Query hierarchy Bool).asked ⊆
        subclass :: hierarchy.mentioned := by
      intro name member
      rcases Relation.reflTransGen_iff_eq_or_transGen.mp
        (Query.chain_of_mem_asked_isSubclass name member) with rfl | chain
      · exact List.mem_cons_self ..
      · exact List.mem_cons_of_mem _ (Hierarchy.mem_mentioned_of_chain chain)
    exact (distinct.subperm few).length_le
  · intro error failed
    obtain ⟨name, member, isMissing, isError⟩ := Query.missing_of_isSubclass error failed
    exact ⟨name, isError, Query.chain_of_mem_asked_isSubclass name member,
      Hierarchy.find?_eq_none.mp isMissing⟩
  · intro defined
    have resolves : hierarchy.Resolves subclass := by
      intro name chain
      obtain ⟨tier, isTier, isDefined⟩ := defined name chain
      cases found : hierarchy.find? name with
      | some data => exact ⟨data, rfl⟩
      | none =>
          rw [Hierarchy.find?_eq_none.mp found tier isTier] at isDefined
          cases isDefined
    obtain ⟨answer, answered, _⟩ := Query.eval_isSubclass resolves superclass
    exact ⟨answer, answered⟩

end Session

end LocalTable
