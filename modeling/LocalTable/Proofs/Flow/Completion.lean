import LocalTable.Proofs.Flow.Growth

/-!
# Completed flows

Adding the edges from protected ranges to their handlers and closing the blocks are
sequences of edits as well.  Every handler whose range holds a real instruction gets
an edge.
-/

namespace LocalTable.Flow

variable {bounds : Bounds} {flow : Flow}

/-- What the protected ranges of a flow and the ends of its blocks add lies within
the bounds. -/
structure Bounds.Completes (bounds : Bounds) (base : Flow)
    (instructions : Array Instruction) :
    Prop where
  size_eq : base.size = instructions.size
  edge_of_range {range : ProtectedRange} {position : Nat} {instruction : Instruction}
    (member : range ∈ base.ranges) (found : instructions[position]? = some instruction)
    (isReal : instruction.isPseudo = false) (after : range.first ≤ position)
    (before : position ≤ range.last) : bounds.edge position range.handler
  final_of_last {range : ProtectedRange} {instruction : Instruction}
    (member : range ∈ base.ranges) (found : instructions[range.last]? = some instruction)
    (isReal : instruction.isPseudo = false) : bounds.final range.last
  edge_of_next {position : Nat} (goesOn : position ∉ base.exits) :
    bounds.edge position (position + 1)

section Completes

variable {base : Flow} {instructions : Array Instruction}

theorem grows_protectPosition {range : ProtectedRange} {position : Nat}
    {instruction : Instruction} (completes : bounds.Completes base instructions)
    (within : base.Within flow) (sound : flow.Sound bounds) (member : range ∈ base.ranges)
    (found : instructions[position]? = some instruction)
    (isReal : instruction.isPseudo = false) (after : range.first ≤ position)
    (before : position ≤ range.last) (changed : Bool) :
    Grows bounds flow (protectPosition range flow position changed) := by
  have toHandler := completes.edge_of_range member found isReal after before
  have inBounds : position < flow.size := by
    rw [within.size_eq, completes.size_eq]
    exact (Array.getElem?_eq_some_iff.mp found).1
  unfold protectPosition
  split
  next hasTarget => exact .single (.edge toHandler (.inr (by simpa using hasTarget)))
  next noTarget =>
    have fresh : flow.targetsOf position = [] := by simpa using noTarget
    split
    next isExit =>
      refine .single (.jump fresh (by simpa using toHandler) (.inl ?_))
      rcases sound.final_of_exit inBounds isExit with isFinal | isTarget
      · exact isFinal
      · rw [fresh] at isTarget
        cases isTarget
    next goesOn =>
      split
      · split
        next =>
          refine .single (.jump fresh ?_ (.inr (List.mem_cons_self ..)))
          intro target isTarget
          rcases List.mem_pair.mp isTarget with rfl | rfl
          · exact completes.edge_of_next fun isExit => goesOn (within.exits isExit)
          · exact toHandler
        next isLast =>
          obtain rfl : position = range.last :=
            Nat.le_antisymm before (Nat.le_of_not_lt isLast)
          exact .single (.jump fresh (by simpa using toHandler)
            (.inl (completes.final_of_last member found isReal)))
      · exact .refl

/-- At a position where the locals may have changed, the handler gets an edge. -/
theorem mem_sourcesOf_protectPosition {range : ProtectedRange} {position : Nat}
    (balanced : flow.Balanced) (inBounds : range.handler < flow.size) :
    position ∈ (protectPosition range flow position true).sourcesOf range.handler := by
  unfold protectPosition
  split
  next => exact (mem_sourcesOf_addEdge balanced).mpr (.inr ⟨rfl, inBounds, rfl⟩)
  next =>
    split
    next => exact (mem_sourcesOf_jump balanced).mpr (.inr ⟨by simp, inBounds, rfl⟩)
    next =>
      rw [if_pos rfl]
      split <;> exact (mem_sourcesOf_jump balanced).mpr (.inr ⟨by simp, inBounds, rfl⟩)

/-- What is known when some positions of a range have been visited: the handler has an
edge, or all of them are pseudo-instructions. -/
structure Visited (bounds : Bounds) (instructions : Array Instruction) (flow : Flow)
    (range : ProtectedRange) (seen : List Nat) (state : Flow × Bool) : Prop where
  grows : Grows bounds flow state.1
  handler (inBounds : range.handler < flow.size) :
    state.1.sourcesOf range.handler ≠ [] ∨ state.2 = true ∧
      ∀ position ∈ seen, ∀ instruction,
      instructions[position]? = some instruction → instruction.isPseudo = true

theorem Visited.visit {range : ProtectedRange} {seen : List Nat} {state : Flow × Bool}
    {position : Nat} (completes : bounds.Completes base instructions)
    (within : base.Within flow) (sound : flow.Sound bounds) (member : range ∈ base.ranges)
    (visited : Visited bounds instructions flow range seen state)
    (after : range.first ≤ position) (before : position ≤ range.last) :
    Visited bounds instructions flow range (seen ++ [position])
      (protectRange.visit instructions range state position) := by
  obtain ⟨reached, changed⟩ := state
  -- A position without a real instruction changes nothing.
  have skipped (isPseudo : ∀ instruction, instructions[position]? = some instruction →
      instruction.isPseudo = true) :
      Visited bounds instructions flow range (seen ++ [position]) (reached, changed) := by
    refine ⟨visited.grows, fun inBounds => (visited.handler inBounds).imp_right ?_⟩
    intro ⟨mayChange, allPseudo⟩
    refine ⟨mayChange, fun other member => ?_⟩
    rcases List.mem_append.mp member with member | member
    · exact allPseudo other member
    · exact List.mem_singleton.mp member ▸ isPseudo
  simp only [protectRange.visit]
  split
  next nothing => exact skipped fun _ found => nomatch nothing.symm.trans found
  next instruction found =>
    split
    next isPseudo =>
      exact skipped fun _ foundOther =>
        Option.some.inj (found.symm.trans foundOther) ▸ isPseudo
    next isReal =>
      have reachedSound := Grows.sound visited.grows sound
      have reachedWithin := Grows.within visited.grows sound
      have grows := grows_protectPosition completes
        (within.trans reachedWithin) reachedSound
        member found (by simpa using isReal) after before changed
      refine ⟨visited.grows.trans grows, fun inBounds => .inl ?_⟩
      rcases visited.handler inBounds with hasSource | ⟨mayChange, _⟩
      · obtain ⟨source, isSource⟩ := List.exists_mem_of_ne_nil _ hasSource
        exact List.ne_nil_of_mem ((Grows.within grows reachedSound).sources isSource)
      · have mayChange : changed = true := mayChange
        rw [mayChange]
        rw [← reachedWithin.size_eq] at inBounds
        exact List.ne_nil_of_mem (mem_sourcesOf_protectPosition
          reachedSound.balanced inBounds)

theorem visited_protectRange {range : ProtectedRange}
    (completes : bounds.Completes base instructions) (within : base.Within flow)
    (sound : flow.Sound bounds) (member : range ∈ base.ranges) :
    ∃ changed, Visited bounds instructions flow range
      (List.range' range.first (min range.last (instructions.size - 1) + 1 - range.first))
      (protectRange instructions flow range, changed) := by
  have walked (positions seen : List Nat) (state : Flow × Bool)
      (inRange : ∀ position ∈ positions, range.first ≤ position ∧ position ≤ range.last)
      (visited : Visited bounds instructions flow range seen state) :
      Visited bounds instructions flow range (seen ++ positions)
        (positions.foldl (protectRange.visit instructions range) state) := by
    induction positions generalizing seen state with
    | nil => simpa using visited
    | cons position rest ih =>
        obtain ⟨⟨after, before⟩, restInRange⟩ := List.forall_mem_cons.mp inRange
        have visited := visited.visit completes within sound member after before
        simpa using ih (seen ++ [position]) _ restInRange visited
  refine ⟨_, walked _ [] (flow, true) (fun position inRange => ?_)
    ⟨.refl, fun _ => .inr ⟨rfl, nofun⟩⟩⟩
  have := List.mem_range'_1.mp inRange
  omega

theorem grows_protectRanges {ranges : List ProtectedRange}
    (completes : bounds.Completes base instructions) (within : base.Within flow)
    (sound : flow.Sound bounds) (members : ∀ range ∈ ranges, range ∈ base.ranges) :
    Grows bounds flow (ranges.foldl (protectRange instructions) flow) := by
  apply List.foldlRecOn (motive := Grows bounds flow)
  · exact .refl
  · intro reached grows range member
    obtain ⟨_, visited⟩ := visited_protectRange completes
      (within.trans (Grows.within grows sound)) (Grows.sound grows sound)
        (members range member)
    exact grows.trans visited.grows

theorem grows_protect (completes : bounds.Completes base instructions)
    (sound : base.Sound bounds) : Grows bounds base (base.protect instructions) :=
  grows_protectRanges completes .refl sound fun _ => id

/-- The handler of a range with a real instruction has an edge. -/
theorem sourcesOf_protect_ne_nil {range : ProtectedRange} {position : Nat}
    {instruction : Instruction} (completes : bounds.Completes base instructions)
    (sound : base.Sound bounds) (member : range ∈ base.ranges)
    (inBounds : range.handler < base.size)
    (found : instructions[position]? = some instruction)
    (isReal : instruction.isPseudo = false) (after : range.first ≤ position)
    (before : position ≤ range.last) :
    (base.protect instructions).sourcesOf range.handler ≠ [] := by
  obtain ⟨earlier, later, split_eq⟩ := List.append_of_mem member
  have members {other : ProtectedRange} (isOther : other ∈ earlier ++ later) :
      other ∈ base.ranges := by
    rw [split_eq]
    exact List.mem_append.mpr
      ((List.mem_append.mp isOther).imp_right (List.mem_cons_of_mem range))
  have grows := grows_protectRanges completes .refl sound
    fun other isOther => members (List.mem_append_left later isOther)
  have reachedSound := Grows.sound grows sound
  have reachedWithin := Grows.within grows sound
  obtain ⟨_, visited⟩ := visited_protectRange completes reachedWithin reachedSound member
  have visitedSound := Grows.sound visited.grows reachedSound
  have growsOn := grows_protectRanges completes
    (reachedWithin.trans (Grows.within visited.grows reachedSound)) visitedSound
    fun other isOther => members (List.mem_append_right earlier isOther)
  have hasSource : (protectRange instructions
      (earlier.foldl (protectRange instructions) base) range).sourcesOf
          range.handler ≠ [] := by
    refine (visited.handler (reachedWithin.size_eq ▸ inBounds)).resolve_right ?_
    intro ⟨_, allPseudo⟩
    have positionInBounds : position < instructions.size :=
      (Array.getElem?_eq_some_iff.mp found).1
    have isPseudo := allPseudo position (List.mem_range'_1.mpr (by omega))
      instruction found
    cases isPseudo.symm.trans isReal
  obtain ⟨source, isSource⟩ := List.exists_mem_of_ne_nil _ hasSource
  have kept := (Grows.within growsOn visitedSound).sources isSource
  rw [protect, split_eq, List.foldl_append, List.foldl_cons]
  exact List.ne_nil_of_mem kept

theorem grows_close (completes : bounds.Completes base instructions)
    (within : base.Within flow) (position : Nat) :
    Grows bounds flow (closeBlocks.close flow position) := by
  unfold closeBlocks.close
  split
  next opens =>
    simp only [Bool.and_eq_true, Bool.not_eq_true', IndexSet.contains_eq_false,
      List.isEmpty_iff] at opens
    obtain ⟨⟨goesOn, _⟩, fresh⟩ := opens
    refine .single (.jump fresh ?_ (.inr (List.mem_singleton_self _)))
    intro target isTarget
    rw [List.mem_singleton.mp isTarget]
    exact completes.edge_of_next fun isExit => goesOn (within.exits isExit)
  next => exact .refl

theorem grows_closeBlocks (completes : bounds.Completes base instructions)
    (within : base.Within flow) (sound : flow.Sound bounds) :
    Grows bounds flow flow.closeBlocks := by
  apply List.foldlRecOn (motive := Grows bounds flow)
  · exact .refl
  · intro reached grows position _
    exact grows.trans (grows_close completes
      (within.trans (Grows.within grows sound)) position)

end Completes

end LocalTable.Flow
