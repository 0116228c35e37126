import Mathlib.Data.List.TakeWhile
import LocalTable.Proofs.IndexSet
import LocalTable.Proofs.Query
import LocalTable.Walk

/-!
# What walks visit

A walk visits every position at most once, so it takes no more visits than there are
positions.  Where visits do not depend on each other, a walk finds exactly what there is
to be found at the positions that can be reached from its start, whatever the graph is
like.
-/

namespace LocalTable.Walk

section Steps

variable {m : Type → Type} [Monad m] {σ : Type} {size : Nat}
  {visit : Nat → σ → m (σ × List Nat)} {pending rest : List Nat} {seen : IndexSet}
  {position : Nat} {state : σ}

theorem run_eq_pure
    (isDone : pending.dropWhile (fun other => !isFresh size seen other) = []) :
    run size visit pending seen state = pure state := by
  unfold run
  split
  next => rfl
  next more => cases isDone.symm.trans more

theorem run_eq_bind
    (next : pending.dropWhile (fun other => !isFresh size seen other) =
      position :: rest) :
    run size visit pending seen state = visit position state >>= fun visited =>
      run size visit (visited.2.reverse ++ rest) (seen.insert position) visited.1 := by
  rw [run]
  split
  next isDone => cases isDone.symm.trans next
  next other others isNext =>
    cases next.symm.trans isNext
    rfl

/-- What is passed over has been seen, or lies beyond the end. -/
theorem seen_or_mem_dropWhile (seen : IndexSet) (member : position ∈ pending)
    (inBounds : position < size) :
    position ∈ seen ∨ position ∈ pending.dropWhile
      (fun other => !isFresh size seen other) := by
  rw [← List.takeWhile_append_dropWhile (p := fun other => !isFresh size seen other)
    (l := pending), List.mem_append] at member
  rcases member with isPassed | isLeft
  · have notFresh := List.mem_takeWhile_imp isPassed
    simp only [isFresh, inBounds, decide_true, Bool.true_and, Bool.not_not] at notFresh
    exact .inl (IndexSet.mem_iff.mpr notFresh)
  · exact .inr isLeft

/-- A walk that gives up when a number of visits is used up. -/
def runWithin (size : Nat) (visit : Nat → σ → m (σ × List Nat)) (visits : Nat)
    (pending : List Nat) (seen : IndexSet) (state : σ) : m (Option σ) :=
  match pending.dropWhile (fun position => !isFresh size seen position), visits with
  | [], _ => pure (some state)
  | _ :: _, 0 => pure none
  | position :: rest, visits + 1 =>
      visit position state >>= fun (state, onward) =>
        runWithin size visit visits (onward.reverse ++ rest) (seen.insert position) state

/-- A walk does not give up if it has a visit for every position that it has not seen. -/
theorem runWithin_eq_run [LawfulMonad m] {visits : Nat}
    (enough : seen.missingBelow size ≤ visits) :
    runWithin size visit visits pending seen state =
      some <$> run size visit pending seen state := by
  induction visits generalizing pending seen state with
  | zero =>
      cases next : pending.dropWhile (fun other => !isFresh size seen other) with
      | nil =>
          unfold runWithin
          rw [run_eq_pure next, next, map_pure]
      | cons position rest =>
          obtain ⟨inBounds, unseen⟩ := isFresh_of_dropWhile next
          have fewer := IndexSet.missingBelow_insert_lt inBounds unseen
          omega
  | succ visits ih =>
      cases next : pending.dropWhile (fun other => !isFresh size seen other) with
      | nil =>
          unfold runWithin
          rw [run_eq_pure next, next, map_pure]
      | cons position rest =>
          obtain ⟨inBounds, unseen⟩ := isFresh_of_dropWhile next
          have fewer := IndexSet.missingBelow_insert_lt inBounds unseen
          unfold runWithin
          rw [run_eq_bind next, next, map_bind]
          apply bind_congr
          intro visited
          exact ih (by omega)

end Steps

/-- A walk that visits only positions with a property, from which it goes on only
to such positions, ends in a state with the property that each visit keeps.  This
holds for every way to reason about sequences of computations. -/
theorem run_holds {m : Type → Type} [Monad m] {σ : Type} {size : Nat}
    {visit : Nat → σ → m (σ × List Nat)} (holds : {α : Type} → m α → (α → Prop) → Prop)
    (holdsPure : ∀ {α : Type} {value : α} {Q : α → Prop}, Q value → holds (pure value) Q)
    (holdsBind :
      ∀ {α β : Type} {first : m α} {next : α → m β} {P : α → Prop} {Q : β → Prop},
      holds first P → (∀ value, P value → holds (next value) Q) →
        holds (first >>= next) Q)
    {R : Nat → Prop} {S : σ → Prop}
    (visits : ∀ position state, R position → S state →
      holds (visit position state) fun visited =>
        S visited.1 ∧ ∀ next ∈ visited.2, R next)
    {pending : List Nat} {seen : IndexSet} {state : σ}
    (allPending : ∀ next ∈ pending, R next) (isState : S state) :
    holds (run size visit pending seen state) S := by
  induction pending, seen, state using Walk.run.induct size with
  | case1 pending seen state isDone =>
      rw [run_eq_pure isDone]
      exact holdsPure isState
  | case2 pending seen state position rest next fresh _ ih =>
      rw [run_eq_bind next]
      have among : ∀ other ∈ position :: rest, R other := fun other member =>
        allPending other ((List.dropWhile_sublist _).subset (next ▸ member))
      obtain ⟨isPosition, allRest⟩ := List.forall_mem_cons.mp among
      refine holdsBind (visits position state isPosition isState) ?_
      rintro ⟨reached, onward⟩ ⟨isReached, allOnward⟩
      refine ih reached onward (fun next member => ?_) isReached
      rcases List.mem_append.mp member with member | member
      · exact allOnward next (List.mem_reverse.mp member)
      · exact allRest next member

theorem looksUp_run {hierarchy : Hierarchy} {σ : Type} {size : Nat}
    {visit : Nat → σ → Query hierarchy (σ × List Nat)} {pending : List Nat}
    {seen : IndexSet} {state : σ}
    (visits : ∀ position state, (visit position state).LooksUp) :
    (run size visit pending seen state).LooksUp := by
  induction pending, seen, state using Walk.run.induct size with
  | case1 pending seen state isDone =>
      rw [run_eq_pure isDone]
      exact .pure state
  | case2 pending seen state position rest next fresh _ ih =>
      rw [run_eq_bind next]
      exact .bind (visits position state) fun visited => ih visited.1 visited.2

/-! ## Walks that collect -/

variable {hierarchy : Hierarchy} {size : Nat} {leads finds : Nat → Nat → Prop}
  {visit : Nat → List Nat → Query hierarchy (List Nat × List Nat)}

/-- Positions that can be reached from the pending ones without leaving the method. -/
inductive Explored (size : Nat) (leads : Nat → Nat → Prop) (pending : List Nat) :
    Nat → Prop where
  | start {position : Nat} (isPending : position ∈ pending) (inBounds : position < size) :
      Explored size leads pending position
  | onward {position next : Nat} (explored : Explored size leads pending position)
      (isOnward : leads position next) (inBounds : next < size) :
      Explored size leads pending next

theorem Explored.lt {pending : List Nat} {position : Nat}
    (explored : Explored size leads pending position) : position < size := by
  cases explored with
  | start _ inBounds => exact inBounds
  | onward _ _ inBounds => exact inBounds

theorem Explored.trans {pending later : List Nat} {position : Nat}
    (explored : Explored size leads later position)
    (starts : ∀ start ∈ later, start < size → Explored size leads pending start) :
    Explored size leads pending position := by
  induction explored with
  | start isPending inBounds => exact starts _ isPending inBounds
  | onward _ isOnward inBounds ih => exact ih.onward isOnward inBounds

theorem Explored.mono {others : Nat → Nat → Prop} {pending : List Nat} {position : Nat}
    (also : ∀ position next, leads position next → others position next)
    (explored : Explored size leads pending position) :
    Explored size others pending position := by
  induction explored with
  | start isPending inBounds => exact .start isPending inBounds
  | onward _ isOnward inBounds ih => exact .onward ih (also _ _ isOnward) inBounds

/-- What a visit finds, and where it leads, depends on nothing but the position. -/
def Collects (visit : Nat → List Nat → Query hierarchy (List Nat × List Nat))
    (leads finds : Nat → Nat → Prop) : Prop :=
  ∀ position state next onward, (visit position state).eval = .ok (next, onward) →
    (∀ other, other ∈ onward ↔ leads position other) ∧
      ∀ item, item ∈ next ↔ item ∈ state ∨ finds position item

/-- A walk has visited some positions: those that are pending, and those that these lead
to on and on.  It ends with what has been found at them. -/
theorem exists_visited {pending state result : List Nat} {seen : IndexSet}
    (collects : Collects visit leads finds)
    (ran : (run size visit pending seen state).eval = .ok result) :
    ∃ visited : Nat → Prop,
      (∀ position, visited position → Explored size leads pending position) ∧
      (∀ position ∈ pending, position < size → position ∈ seen ∨ visited position) ∧
      (∀ position next, visited position → leads position next → next < size →
        next ∈ seen ∨ visited next) ∧
      ∀ item, item ∈ result ↔
        item ∈ state ∨ ∃ position, visited position ∧ finds position item := by
  induction pending, seen, state using Walk.run.induct size with
  | case1 pending seen state isDone =>
      rw [run_eq_pure isDone] at ran
      cases ran
      refine ⟨fun _ =>
        False, by simp, fun position member inBounds => .inl ?_, by simp, by simp⟩
      simpa [isDone] using seen_or_mem_dropWhile seen member inBounds
  | case2 pending seen state position rest next fresh _ ih =>
      rw [run_eq_bind next, Query.eval_bind_eq_ok] at ran
      obtain ⟨⟨reached, onward⟩, isVisit, ran⟩ := ran
      obtain ⟨isOnward, isFound⟩ := collects position state reached onward isVisit
      obtain ⟨visited, sound, starts, closed, found⟩ := ih reached onward ran
      have isPending (other : Nat) (member : other ∈ position :: rest) :
          other ∈ pending :=
        (List.dropWhile_sublist _).subset (next ▸ member)
      have here : Explored size leads pending position :=
        .start (isPending position (List.mem_cons_self ..)) fresh.1
      -- Whatever the rest of the walk gets to, it gets to from here.
      refine ⟨fun other => other = position ∨ visited other, ?_, ?_, ?_, fun item => ?_⟩
      · rintro other (rfl | isVisited)
        · exact here
        · apply (sound other isVisited).trans
          intro start member inBounds
          rcases List.mem_append.mp member with member | member
          · exact here.onward ((isOnward start).mp (List.mem_reverse.mp member)) inBounds
          · exact .start (isPending start (List.mem_cons_of_mem _ member)) inBounds
      · intro other member inBounds
        rcases seen_or_mem_dropWhile seen member inBounds with isSeen | isLeft
        · exact .inl isSeen
        · rw [next] at isLeft
          rcases List.mem_cons.mp isLeft with rfl | isLeft
          · exact .inr (.inl rfl)
          · have isStart := starts other (List.mem_append_right _ isLeft) inBounds
            simpa [or_assoc, or_comm, or_left_comm] using isStart
      · rintro other following (rfl | isVisited) leadsOn inBounds
        · have member := List.mem_reverse.mpr ((isOnward following).mpr leadsOn)
          have isStart := starts following (List.mem_append_left _ member) inBounds
          simpa [or_assoc, or_comm, or_left_comm] using isStart
        · have isClosed := closed other following isVisited leadsOn inBounds
          simpa [or_assoc, or_comm, or_left_comm] using isClosed
      · rw [found, isFound]
        simp [or_and_right, exists_or, or_assoc]

/-- A walk finds exactly what there is at the positions that can be reached. -/
theorem mem_run_iff {pending state result : List Nat} {item : Nat}
    (collects : Collects visit leads finds)
    (ran : (run size visit pending ∅ state).eval = .ok result) :
    item ∈ result ↔
      item ∈ state ∨ ∃ position, Explored size leads pending position ∧
        finds position item := by
  obtain ⟨visited, sound, starts, closed, found⟩ := exists_visited collects ran
  have complete (position : Nat) (explored : Explored size leads pending position) :
      visited position := by
    induction explored with
    | start isPending inBounds =>
        simpa using starts _ isPending inBounds
    | onward _ isOnward inBounds ih =>
        simpa using closed _ _ ih isOnward inBounds
  rw [found]
  constructor
  · rintro (member | ⟨position, isVisited, isFound⟩)
    · exact .inl member
    · exact .inr ⟨position, sound position isVisited, isFound⟩
  · rintro (member | ⟨position, explored, isFound⟩)
    · exact .inl member
    · exact .inr ⟨position, complete position explored, isFound⟩

end LocalTable.Walk
