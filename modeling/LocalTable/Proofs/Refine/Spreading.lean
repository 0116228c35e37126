import LocalTable.Proofs.Refine

/-!
# Steps of a spreading type

A type that spreads takes one pending position after the other.  Either it passes the
position by, or the local there has not been refined and gets the type as it is, or the
local has been refined and is widened.  All that is known about spreading follows from
these three steps.
-/

namespace LocalTable

namespace Refinement

variable {refinement changed : Refinement} {position slot other : Nat}
  {before after : ValueType}

/-! ## Changes of a local -/

@[simp] theorem frames_markRefined :
    (refinement.markRefined position slot).frames = refinement.frames := rfl

@[simp] theorem changes_markRefined :
    (refinement.markRefined position slot).changes = refinement.changes := rfl

@[simp] theorem size_refined_markRefined :
    (refinement.markRefined position slot).refined.size = refinement.refined.size :=
  Array.size_modify ..

@[simp] theorem isRefined_start (frames : Frames) (maxLocals position slot : Nat) :
    (start frames maxLocals).isRefined position slot = false := by
  unfold isRefined start
  rw [Array.getD_eq_getD_getElem?, Array.getElem?_replicate]
  split
  next => exact IndexSet.contains_empty position
  next => exact IndexSet.contains_empty position

/-- The slot is refined at the position where it is marked, and elsewhere as before. -/
theorem isRefined_markRefined (position slot other otherSlot : Nat) :
    (refinement.markRefined position slot).isRefined other otherSlot =
      (refinement.isRefined other otherSlot ||
        (other = position && otherSlot = slot && slot < refinement.refined.size)) := by
  unfold isRefined markRefined
  rw [Array.getD_eq_getD_getElem?, Array.getD_eq_getD_getElem?, Array.getElem?_modify]
  by_cases same : slot = otherSlot
  · subst same
    by_cases inBounds : slot < refinement.refined.size
    · simp [inBounds, Bool.or_comm, Bool.beq_eq_decide_eq, eq_comm]
    · simp [inBounds]
  · simp [same, Ne.symm same]

section Retype

variable (retyped : refinement.retype position slot before after = .ok changed)
  (held : refinement.frames.localAt position slot = some before)

include retyped held

theorem retype_eq_ok : ∃ frame next, refinement.frames.at? position = some frame ∧
    frame.setLocal slot after = .ok next ∧
    changed = { refinement with
      frames := refinement.frames.put position next
      changes := ⟨position, slot, before, after⟩ :: refinement.changes } := by
  obtain ⟨frame, there, _⟩ := Frames.localAt_eq_some.mp held
  unfold retype at retyped
  rw [there] at retyped
  dsimp only at retyped
  split at retyped
  next next stored =>
    cases retyped
    exact ⟨frame, next, there, stored, rfl⟩
  next => cases retyped

/-- A change gives the local its type, and leaves the slot alone elsewhere. -/
theorem localAt_retype (other : Nat) :
    changed.frames.localAt other slot =
      if other = position then some after else refinement.frames.localAt other slot := by
  obtain ⟨frame, next, there, stored, rfl⟩ := retype_eq_ok retyped held
  split
  next same =>
    rw [same, Frames.localAt_put_self there, Frame.localAt_setLocal stored, if_pos rfl]
  next differ => exact Frames.localAt_put_of_ne differ slot

theorem refined_retype : changed.refined = refinement.refined := by
  obtain ⟨frame, next, there, stored, rfl⟩ := retype_eq_ok retyped held
  rfl

theorem isRefined_retype (other otherSlot : Nat) :
    changed.isRefined other otherSlot = refinement.isRefined other otherSlot := by
  rw [isRefined, isRefined, refined_retype retyped held]

end Retype

end Refinement

/-! ## Steps -/

namespace Query

variable {hierarchy : Hierarchy} {flow : Flow} {slot : Nat} {expected : ValueType}

/-- What one step of a spreading type can do. -/
inductive Spreads (hierarchy : Hierarchy) (flow : Flow) (slot : Nat)
    (expected : ValueType) :
    Spreading → Spreading → Prop where
  | passes {refinement : Refinement} {position : Nat} {type : ValueType}
      {rest : List (Nat × ValueType)}
      (idle : refinement.frames.localAt position slot ≠ some expected ∨
        refinement.isRefined position slot = true ∧ type = expected) :
      Spreads hierarchy flow slot expected ⟨refinement, (position, type) :: rest⟩
        ⟨refinement, rest⟩
  | refines {refinement changed : Refinement} {position : Nat} {type : ValueType}
      {rest : List (Nat × ValueType)}
      (held : refinement.frames.localAt position slot = some expected)
      (isOpen : refinement.isRefined position slot = false)
      (retyped : (refinement.markRefined position slot).retype position slot
        expected type = .ok changed) :
      Spreads hierarchy flow slot expected ⟨refinement, (position, type) :: rest⟩
        ⟨changed, ((flow.successors position).map (·, type)).reverse ++ rest⟩
  | widens {refinement changed : Refinement} {position : Nat} {type : ValueType}
      {joined : Option ValueType} {rest : List (Nat × ValueType)}
      (held : refinement.frames.localAt position slot = some expected)
      (isRefined : refinement.isRefined position slot = true) (differs : type ≠ expected)
      (joins : (join type expected : Query hierarchy _).eval = .ok joined)
      (retyped : refinement.retype position slot expected (joined.getD expected) =
        .ok changed) :
      Spreads hierarchy flow slot expected ⟨refinement, (position, type) :: rest⟩
        ⟨changed,
          ((flow.successors position).map (·, joined.getD expected)).reverse ++ rest⟩

theorem Spreads.size_refined {before after : Spreading}
    (spreads : Spreads hierarchy flow slot expected before after) :
    after.refinement.refined.size = before.refinement.refined.size := by
  cases spreads with
  | passes => rfl
  | refines held _ retyped =>
      rw [Refinement.refined_retype retyped held, Refinement.size_refined_markRefined]
  | widens held _ _ _ retyped => rw [Refinement.refined_retype retyped held]

/-- A step spreads the type, or finds nothing pending and ends. -/
theorem spreadStep_eq_ok {before : Spreading} {outcome : Spreading ⊕ Refinement}
    (stepped : (spreadStep flow slot expected before : Query hierarchy _).eval =
      .ok outcome) :
    (∃ after, outcome = .inl after ∧ Spreads hierarchy flow slot expected before after) ∨
      before.pending = [] ∧ outcome = .inr before.refinement := by
  obtain ⟨refinement, pending⟩ := before
  unfold spreadStep at stepped
  cases pending with
  | nil =>
      cases stepped
      exact .inr ⟨rfl, rfl⟩
  | cons next rest =>
      obtain ⟨position, type⟩ := next
      left
      dsimp only at stepped
      split at stepped
      next isOther =>
        cases stepped
        exact ⟨_, rfl, .passes (.inl isOther)⟩
      next held =>
        have held := Decidable.not_not.mp held
        split at stepped
        next isOpen =>
          obtain ⟨changed, retyped, ⟨⟩⟩ := eval_bind_eq_ok.mp stepped
          rw [eval_ofExcept] at retyped
          exact ⟨_, rfl, .refines held (by simpa using isOpen) retyped⟩
        next isRefined =>
          have isRefined : refinement.isRefined position slot = true := by
            simpa using isRefined
          split at stepped
          next same =>
            cases stepped
            exact ⟨_, rfl, .passes (.inr ⟨isRefined, same⟩)⟩
          next differs =>
            obtain ⟨joined, joins, stepped⟩ := eval_bind_eq_ok.mp stepped
            obtain ⟨changed, retyped, ⟨⟩⟩ := eval_bind_eq_ok.mp stepped
            rw [eval_ofExcept] at retyped
            exact ⟨_, rfl, .widens held isRefined differs joins retyped⟩

theorem spreads_of_follows {before after : Spreading}
    (follows : Follows (spreadStep flow slot expected : _ → Query hierarchy _)
      before after) :
    Spreads hierarchy flow slot expected before after := by
  rcases spreadStep_eq_ok follows with ⟨_, ⟨⟩, spreads⟩ | ⟨_, ⟨⟩⟩
  exact spreads

end Query

namespace Refine

variable {hierarchy : Hierarchy} {scene : Scene} {position slot : Nat}
  {expected type : ValueType}

/-- A type that has spread has taken steps until nothing was pending.  A slot beyond
those of the method is left alone. -/
theorem retypeFrom_eq_ok {before after : Refinement}
    (ran : ((retypeFrom scene position slot expected type : Refine hierarchy _).run
      before).eval = .ok ((), after)) :
    (slot < before.refined.size ∧
      Relation.ReflTransGen (Query.Spreads hierarchy scene.flow slot expected)
        ⟨before, [(position, type)]⟩ ⟨after, []⟩) ∨
      before.refined.size ≤ slot ∧ after = before := by
  obtain ⟨⟨_, _⟩, ⟨⟩, ran⟩ := Query.eval_bind_eq_ok.mp ran
  dsimp only at ran
  split at ran
  next inBounds =>
    obtain ⟨⟨changed, _⟩, asked, ⟨⟩⟩ := Query.eval_bind_eq_ok.mp ran
    obtain ⟨_, iterated, ⟨⟩⟩ := Query.eval_bind_eq_ok.mp asked
    obtain ⟨last, path, stepped⟩ := Query.iterate_eq_ok iterated
    rcases Query.spreadStep_eq_ok stepped with ⟨_, ⟨⟩, _⟩ | ⟨nothing, ⟨⟩⟩
    have path := Relation.ReflTransGen.mono (fun _ _ => Query.spreads_of_follows) _ _ path
    obtain ⟨refinement, pending⟩ := last
    cases nothing
    exact .inl ⟨inBounds, path⟩
  next outside =>
    cases ran
    exact .inr ⟨Nat.le_of_not_lt outside, rfl⟩

/-- What the start has, and every step keeps, holds when nothing is pending any more. -/
theorem retypeFrom_induction {before after : Refinement} {P : Query.Spreading → Prop}
    (inRange : slot < before.refined.size) (start : P ⟨before, [(position, type)]⟩)
    (step : ∀ earlier later, Query.Spreads hierarchy scene.flow slot expected
      earlier later → P earlier → P later)
    (ran : ((retypeFrom scene position slot expected type : Refine hierarchy _).run
      before).eval = .ok ((), after)) :
    P ⟨after, []⟩ := by
  have holds (last : Query.Spreading) (path : Relation.ReflTransGen
      (Query.Spreads hierarchy scene.flow slot expected)
        ⟨before, [(position, type)]⟩ last) :
      P last := by
    induction path with
    | refl => exact start
    | tail _ spreads ih => exact step _ _ spreads ih
  rcases retypeFrom_eq_ok ran with ⟨_, path⟩ | ⟨outside, _⟩
  · exact holds _ path
  · exact absurd inRange (Nat.not_lt.mpr outside)

/-- What each step of a spreading type keeps is kept when the type has spread. -/
theorem retypeFrom_keeps {I : Refinement → Prop}
    (step : ∀ before after, Query.Spreads hierarchy scene.flow slot expected
      before after →
      slot < before.refinement.refined.size → I before.refinement → I after.refinement) :
    Maintains (fun _ => True) I
      (retypeFrom scene position slot expected type : Refine hierarchy _) fun _ =>
        True := by
  intro before holds
  refine ⟨fun ((), after) ran => ⟨?_, trivial⟩, fun _ _ => trivial⟩
  rcases retypeFrom_eq_ok ran with ⟨inBounds, _⟩ | ⟨_, rfl⟩
  · have kept := retypeFrom_induction (P := fun spreading =>
      slot < spreading.refinement.refined.size ∧ I spreading.refinement) inBounds
      ⟨inBounds, holds⟩ ?_ ran
    · exact kept.2
    · intro earlier later spreads ⟨isBelow, earlierHolds⟩
      exact ⟨spreads.size_refined ▸ isBelow, step _ _ spreads isBelow earlierHolds⟩
  · exact holds

/-- A type that has spread already does not spread again. -/
theorem retypeFrom_of_isRefined {before after : Refinement}
    (isRefined : before.isRefined position slot = true)
    (ran : ((retypeFrom scene position slot type type : Refine hierarchy _).run
      before).eval = .ok ((), after)) :
    after = before := by
  rcases retypeFrom_eq_ok ran with ⟨inRange, _⟩ | ⟨_, same⟩
  · have unmoved : after = before ∧
        ∀ next ∈ ([] : List (Nat × ValueType)), next = (position, type) :=
      retypeFrom_induction (P := fun spreading => spreading.refinement = before ∧
        ∀ next ∈ spreading.pending, next = (position, type)) inRange ⟨rfl, by simp⟩ ?_ ran
    · exact unmoved.1
    · rintro _ _ spreads ⟨rfl, same⟩
      cases spreads with
      | passes =>
          exact ⟨rfl, fun next member => same next (List.mem_cons_of_mem _ member)⟩
      | refines _ isOpen _ =>
          cases same _ (List.mem_cons_self ..)
          rw [isOpen] at isRefined
          cases isRefined
      | widens _ _ differs _ _ =>
          cases same _ (List.mem_cons_self ..)
          exact absurd rfl differs
  · exact same

end Refine

end LocalTable
