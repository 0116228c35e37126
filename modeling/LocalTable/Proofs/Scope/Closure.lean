import LocalTable.Proofs.Flow.Coherence
import LocalTable.Proofs.Scope.Build

/-!
# Merging up to closure

Scopes are gone through from the last one to the first one.  A scope that fits none of
the scopes next to it is done with.  From then on it is not changed any more: it stays
as it is, or a scope that is still to be gone through takes it in.  So two scopes that
are both done with never have to be compared again, although the scopes around them go
on growing and null gives way to a reference type.

Every round has less left to do than the one before, so merging ends.  Then all scopes
are done with: wherever control goes from one of them to another, the two cannot be one
variable.
-/

namespace LocalTable.Scope

variable {flow : Flow} {scope other : Scope} {earlier later others scopes : List Scope}
  {position : Nat}

/-! ## Scopes that do not fit -/

/-- One variable can have either type. -/
def Compatible (left right : ValueType) : Prop :=
  left = right ∨ (left = .null ∧ right.isReference = true) ∨
    (right = .null ∧ left.isReference = true)

theorem Compatible.symm {left right : ValueType} (compatible : Compatible left right) :
    Compatible right left := by
  rcases compatible with same | leftNull | rightNull
  · exact .inl same.symm
  · exact .inr (.inr leftNull)
  · exact .inr (.inl rightNull)

theorem not_compatible {left right : ValueType} (unfit : commonType? left right = none) :
    ¬Compatible left right := by
  unfold commonType? at unfit
  simp only [Bool.and_eq_true, decide_eq_true_eq] at unfit
  split at unfit
  next => cases unfit
  next differ =>
    split at unfit
    next => cases unfit
    next leftUnfit =>
      split at unfit
      next => cases unfit
      next rightUnfit =>
        exact fun compatible => compatible.elim differ (·.elim leftUnfit rightUnfit)

theorem not_compatible_of_mergeable? (unfit : mergeable? scope position other = none)
    (sameSlot : other.slot = scope.slot) (there : other.existsAt position = true) :
    ¬Compatible scope.type other.type := by
  simp only [mergeable?, sameSlot, there, decide_true, Bool.and_self, if_true] at unfit
  exact not_compatible unfit

theorem mergeInto_eq_none (stays : mergeInto scope position others = none)
    (member : other ∈ others) : mergeable? scope position other = none := by
  induction others with
  | nil => cases member
  | cons first rest ih =>
      unfold mergeInto at stays
      split at stays
      next => cases stays
      next unfit =>
        rcases List.mem_cons.mp member with rfl | member
        · exact unfit
        · exact ih (Option.map_eq_none_iff.mp stays) member

theorem mergeFrom_eq_none (stays : mergeFrom scope position others = none)
    (member : other ∈ others) : mergeable? scope position other = none := by
  induction others with
  | nil => cases member
  | cons first rest ih =>
      unfold mergeFrom at stays
      split at stays
      next => cases stays
      next unfit =>
        rcases List.mem_cons.mp member with rfl | member
        · exact unfit
        · exact ih (Option.map_eq_none_iff.mp stays) member

/-- A scope that is done with fits no scope at a position next to it. -/
theorem merge?_eq_none (stays : merge? flow scope earlier later = none)
    (near : position ∈ surroundings flow scope) (member : other ∈ earlier ++ later) :
    mergeable? scope position other = none := by
  have nowhere := List.findSome?_eq_none_iff.mp stays position near
  unfold mergeAt? at nowhere
  split at nowhere
  next => cases nowhere
  next notEarlier =>
    rcases List.mem_append.mp member with isEarlier | isLater
    · exact mergeInto_eq_none notEarlier isEarlier
    · exact mergeFrom_eq_none (Option.map_eq_none_iff.mp nowhere) isLater

/-- Both ends of an edge are looked at. -/
theorem mem_surroundings {next : Nat} (there : scope.existsAt position = true)
    (isNext : next ∈ flow.sourcesOf position ∨ next ∈ flow.targetsOf position) :
    next ∈ surroundings flow scope := by
  refine List.mem_flatMap.mpr ⟨position, IndexSet.mem_toList.mpr there, ?_⟩
  rw [neighbours, IndexSet.mem_toList, IndexSet.mem_ofList, List.mem_append,
    List.mem_append]
  rcases isNext with isSource | isTarget
  · exact .inl (.inl isSource)
  · exact .inr isTarget

/-! ## Closure -/

/-- No edge leads from one scope to the other, or they cannot be one variable. -/
def Settled (flow : Flow) (left right : Scope) : Prop :=
  ∀ source target, target ∈ flow.targetsOf source →
    (left.existsAt source = true ∧ right.existsAt target = true) ∨
      (right.existsAt source = true ∧ left.existsAt target = true) →
    left.slot = right.slot → ¬Compatible left.type right.type

/-- Every edge is recorded at its target. -/
def Mirrored (flow : Flow) : Prop :=
  ∀ source target, target ∈ flow.targetsOf source → source ∈ flow.sourcesOf target

theorem settled_of_merge? (mirrored : Mirrored flow)
    (stays : merge? flow scope earlier later = none) (member : other ∈ earlier ++ later) :
    Settled flow scope other := by
  rintro source target isTarget (⟨leaves, arrives⟩ | ⟨leaves, arrives⟩) sameSlot
  · exact not_compatible_of_mergeable?
      (merge?_eq_none stays (mem_surroundings leaves (.inr isTarget)) member)
        sameSlot.symm arrives
  · exact not_compatible_of_mergeable?
      (merge?_eq_none stays (mem_surroundings arrives
        (.inl (mirrored source target isTarget))) member) sameSlot.symm leaves

/-- Scopes that are done with are settled, and merging keeps them so: they are left as
they are, taken out, or joined by one that has been compared with all of them. -/
theorem pairwise_mergeAll (mirrored : Mirrored flow)
    (settled : later.Pairwise (Settled flow)) :
    (mergeAll flow earlier later).Pairwise (Settled flow) := by
  fun_induction mergeAll flow earlier later with
  | case1 later => exact settled
  | case2 later scope earlier merged outcome _ ih => exact ih settled
  | case3 later scope earlier merged rest outcome _ ih =>
      obtain ⟨before, other, after, type, rfl, rfl, _⟩ := merge?_withLater outcome
      apply ih
      exact settled.sublist (List.Sublist.append_left
        (List.sublist_cons_self other after) before)
  | case4 later scope earlier stays ih =>
      apply ih
      refine List.pairwise_cons.mpr ⟨fun other member => ?_, settled⟩
      exact settled_of_merge? mirrored stays (List.mem_append_right _ member)

/-! ## Rounds -/

/-- What one round makes of the scopes that are still to be gone through and of those
that are done with. -/
def mergeRound (flow : Flow) : List Scope × List Scope → List Scope × List Scope
  | ([], later) => ([], later)
  | (scope :: earlier, later) =>
      match merge? flow scope earlier.reverse later with
      | some (.intoEarlier merged) => (merged.reverse, later)
      | some (.withLater merged rest) => (merged :: earlier, rest)
      | none => (earlier, scope :: later)

/-- After some rounds, at most two for each scope, nothing is left to be gone through. -/
theorem exists_rounds (flow : Flow) (earlier later : List Scope) :
    ∃ rounds ≤ 2 * earlier.length + later.length,
      (mergeRound flow)^[rounds] (earlier, later) =
        ([], mergeAll flow earlier later) := by
  fun_induction mergeAll flow earlier later with
  | case1 later => exact ⟨0, Nat.zero_le _, rfl⟩
  | case2 later scope earlier merged outcome length_eq ih =>
      obtain ⟨rounds, few, done⟩ := ih
      rw [List.length_reverse] at few length_eq
      refine ⟨rounds + 1, by rw [List.length_cons]; omega, ?_⟩
      rw [Function.iterate_succ_apply, mergeRound, outcome]
      exact done
  | case3 later scope earlier merged rest outcome shorter ih =>
      obtain ⟨rounds, few, done⟩ := ih
      rw [List.length_cons] at few
      refine ⟨rounds + 1, by rw [List.length_cons]; omega, ?_⟩
      rw [Function.iterate_succ_apply, mergeRound, outcome]
      exact done
  | case4 later scope earlier stays ih =>
      obtain ⟨rounds, few, done⟩ := ih
      rw [List.length_cons] at few
      refine ⟨rounds + 1, by rw [List.length_cons]; omega, ?_⟩
      rw [Function.iterate_succ_apply, mergeRound, stays]
      exact done

/-! ## What merging keeps -/

/-- The scopes of one slot have no position in common, and each of them begins and ends
at the least and the greatest of its positions. -/
structure Tidy (scopes : List Scope) : Prop where
  disjoint : scopes.Pairwise fun left right => left.slot = right.slot →
    ∀ position, ¬(left.existsAt position = true ∧ right.existsAt position = true)
  isLeast {scope : Scope} (member : scope ∈ scopes) :
    IsLeast {position | scope.existsAt position = true} scope.first
  isGreatest {scope : Scope} (member : scope ∈ scopes) :
    IsGreatest {position | scope.existsAt position = true} scope.last

theorem Tidy.perm {left right : List Scope} (same : left.Perm right) (tidy : Tidy left) :
    Tidy right where
  disjoint := by
    refine (same.pairwise_iff ?_).mp tidy.disjoint
    intro left right apart sameSlot position both
    exact apart sameSlot.symm position both.symm
  isLeast member := tidy.isLeast (same.mem_iff.mpr member)
  isGreatest member := tidy.isGreatest (same.mem_iff.mpr member)

theorem existsAt_absorb (left right : Scope) (type : ValueType) (position : Nat) :
    (left.absorb right type).existsAt position = true ↔
      left.existsAt position = true ∨ right.existsAt position = true :=
  IndexSet.mem_union

theorem Tidy.absorb {left right : Scope} {type : ValueType}
    (sameSlot : left.slot = right.slot) (tidy : Tidy (left :: right :: others)) :
    Tidy (left.absorb right type :: others) := by
  obtain ⟨leftApart, disjoint⟩ := List.pairwise_cons.mp tidy.disjoint
  obtain ⟨rightApart, disjoint⟩ := List.pairwise_cons.mp disjoint
  have isLeft : left ∈ left :: right :: others := List.mem_cons_self ..
  have isRight : right ∈ left :: right :: others :=
    List.mem_cons_of_mem _ (List.mem_cons_self ..)
  have isOther {scope : Scope} (member : scope ∈ others) :
      scope ∈ left :: right :: others :=
    List.mem_cons_of_mem _ (List.mem_cons_of_mem _ member)
  obtain ⟨isLeast, isGreatest⟩ :=
    ends_absorb type (tidy.isLeast isLeft) (tidy.isGreatest isLeft)
    (tidy.isLeast isRight) (tidy.isGreatest isRight)
  refine ⟨List.pairwise_cons.mpr ⟨fun other member isSlot position both => ?_,
    disjoint⟩, ?_, ?_⟩
  · rcases (existsAt_absorb left right type position).mp both.1 with inLeft | inRight
    · exact leftApart other (List.mem_cons_of_mem _ member) isSlot position
        ⟨inLeft, both.2⟩
    · exact rightApart other member (sameSlot.symm.trans isSlot) position
        ⟨inRight, both.2⟩
  · intro scope member
    rcases List.mem_cons.mp member with rfl | member
    · exact isLeast
    · exact tidy.isLeast (isOther member)
  · intro scope member
    rcases List.mem_cons.mp member with rfl | member
    · exact isGreatest
    · exact tidy.isGreatest (isOther member)

/-- Some scope of the slot exists at the position. -/
def Covers (scopes : List Scope) (slot position : Nat) : Prop :=
  ∃ scope ∈ scopes, scope.slot = slot ∧ scope.existsAt position = true

theorem covers_absorb {left right : Scope} {type : ValueType}
    (sameSlot : left.slot = right.slot) (slot position : Nat) :
    Covers (left.absorb right type :: others) slot position ↔
      Covers (left :: right :: others) slot position := by
  simp only [Covers, List.exists_mem_cons_iff, existsAt_absorb, ← sameSlot, ← or_assoc,
    ← and_or_left]
  rfl

theorem covers_mergeAll (flow : Flow) (earlier later : List Scope) (slot position : Nat) :
    Covers (mergeAll flow earlier later) slot position ↔
      Covers (earlier ++ later) slot position := by
  apply mergeAll_induction
    (P := fun scopes => Covers scopes slot position ↔
      Covers (earlier ++ later) slot position)
  · intro left right same
    simp only [Covers, same.mem_iff, imp_self]
  · intro left right type rest joins same
    rw [covers_absorb joins.1, same]
  · exact Iff.rfl

theorem tidy_mergeAll (tidy : Tidy (earlier ++ later)) :
    Tidy (mergeAll flow earlier later) :=
  mergeAll_induction (fun _ _ => .perm) (fun _ _ _ _ joins => .absorb joins.1) tidy

/-- Merging scopes along a flow ends after at most two rounds for each of them.  Then,
wherever an edge leads from one scope to another one of the same slot, their types
cannot be those of one variable.  No position of a slot is lost or added, and the scopes
of a slot still have no position in common. -/
theorem merging_reaches_closure {code : Code} {branches : Flow}
    (ends : Flow.EndsPlainly code) (built : Flow.ofCode code = .ok branches)
    (passed : Relation.ReflTransGen (Flow.Pass code.instructions) branches flow)
    (tidy : Tidy scopes) :
    let result := mergeAll flow scopes.reverse []
    (∃ rounds ≤ 2 * scopes.length,
      (mergeRound flow)^[rounds] (scopes.reverse, []) = ([], result)) ∧
    (∀ source target, target ∈ flow.targetsOf source →
      ∀ (first second : Nat) (left right : Scope), result[first]? = some left →
        result[second]? = some right → left.existsAt source = true →
        right.existsAt target = true → left.slot = right.slot →
        Compatible left.type right.type → first = second) ∧
    (∀ slot position, Covers result slot position ↔ Covers scopes slot position) ∧
    Tidy result := by
  intro result
  obtain ⟨ranges, inside, coherent⟩ :=
    Flow.coherent_ofCode (Nat.le_refl _) (Flow.leadsBelow_of_endsPlainly ends) built
  have mirrored : Mirrored flow := fun _ _ =>
    (coherent.passes inside passed).mem_targetsOf_iff.mp
  have start : scopes.Perm (scopes.reverse ++ []) := by
    rw [List.append_nil]
    exact (List.reverse_perm scopes).symm
  refine ⟨?_, ?_, fun slot position => ?_, tidy_mergeAll (tidy.perm start)⟩
  · simpa using exists_rounds flow scopes.reverse []
  · intro source target isTarget first second left right isLeft isRight leaves arrives
      sameSlot fits
    have settled : result.Pairwise (Settled flow) := pairwise_mergeAll mirrored .nil
    rw [List.pairwise_iff_getElem] at settled
    obtain ⟨firstBound, rfl⟩ := List.getElem?_eq_some_iff.mp isLeft
    obtain ⟨secondBound, rfl⟩ := List.getElem?_eq_some_iff.mp isRight
    rcases Nat.lt_trichotomy first second with before | same | after
    · exact absurd fits (settled first second firstBound secondBound before source
        target isTarget (.inl ⟨leaves, arrives⟩) sameSlot)
    · exact same
    · exact absurd fits.symm (settled second first secondBound firstBound
        after source target isTarget (.inr ⟨leaves, arrives⟩) sameSlot.symm)
  · rw [covers_mergeAll]
    simp only [Covers, start.mem_iff]

/-- A slot of `crossedCode` that holds null at first, then a text, and behind the branch
an object. -/
def nullScopes : List Scope :=
  [ofRun 0 .null 0 [], ofRun 0 (.object .string) 1 [2], ofRun 0 .anyObject 3 [4]]

theorem tidy_nullScopes : Tidy nullScopes := by
  have existsAt {slot first position : Nat} {type : ValueType} {rest : List Nat} :
      (ofRun slot type first rest).existsAt position = true ↔ position ∈ first :: rest :=
    mem_positions_ofRun
  have ends : ∀ scope ∈ nullScopes,
      IsLeast {position | scope.existsAt position = true} scope.first ∧
        IsGreatest {position | scope.existsAt position = true} scope.last := by
    simp only [nullScopes, List.forall_mem_cons, List.not_mem_nil,
      false_imp_iff, implies_true, and_true]
    exact ⟨ends_ofRun (by decide), ends_ofRun (by decide), ends_ofRun (by decide)⟩
  refine ⟨?_, fun member => (ends _ member).1, fun member => (ends _ member).2⟩
  simp only [nullScopes, List.pairwise_cons, existsAt, List.mem_cons]
  grind

/-- Null is taken for the object, to which an edge leads.  The text, to which another
edge leads, fits no more. -/
theorem null_merges_with_one_neighbour :
    ∃ branches, Flow.EndsPlainly crossedCode ∧ Flow.ofCode crossedCode = .ok branches ∧
      Tidy nullScopes ∧
      let flow := branches.closeBlocks
      let result := mergeAll flow nullScopes.reverse []
      flow.targetsOf 0 = [1, 3] ∧
      result.map (fun scope => (scope.type, scope.positions.toList)) =
        [(.anyObject, [0, 3, 4]), (.object .string, [1, 2])] ∧
      (∃ rounds ≤ 6, (mergeRound flow)^[rounds] (nullScopes.reverse, []) = ([], result)) ∧
      Tidy result ∧
      ∀ slot position, Covers result slot position ↔ Covers nullScopes slot position := by
  have ends : Flow.EndsPlainly crossedCode := by
    rintro _ ⟨⟩
    rfl
  have built : Flow.ofCode crossedCode = .ok
      { entries := ⟨11⟩
        exits := ⟨17⟩
        targets := #[[1, 3], [], [], [], []]
        sources := #[[], [0], [], [0], []]
        ranges := [] } := rfl
  obtain ⟨rounds, _, covers, tidy⟩ :=
    merging_reaches_closure ends built (.single (.closeBlocks _)) tidy_nullScopes
  exact ⟨_, ends, built,
    tidy_nullScopes, by decide +kernel, by decide +kernel, rounds, tidy, covers⟩

end LocalTable.Scope
