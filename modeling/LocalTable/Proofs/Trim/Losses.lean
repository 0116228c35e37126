import LocalTable.Proofs.Trim.Drops

/-!
# What trimming takes away

The two halves of a wide value are separate slots, and the upper half is never live.  So
where the end of a block drops both, the walk back takes the upper half away even where
the value is still to be used, and the lower half stays alone there.  The other way
round, no upper half stays without its lower one.

A load makes its slot live, so the slot keeps its value there.  An increment does not,
and its slot may be gone although the increment reads it.
-/

namespace LocalTable.Query

variable {hierarchy : Hierarchy}

/-- What trimming goes by, and what it leaves: the frames of a method, its completed
flow, the live slots and the trimmed frames. -/
structure Trimming (hierarchy : Hierarchy) (body : Body) (branches completed flow : Flow)
    (frames : Frames) (liveness : Liveness) (trimmed : Frames) : Prop where
  built : Flow.ofCode body.code = .ok branches
  computed : (computeFrames body branches : Query hierarchy _).eval =
    .ok (frames, completed)
  flow_eq : flow = (completed.protect body.instructions).closeBlocks
  liveness_eq :
    liveness = (Liveness.compute body.instructions flow frames body.code.maxLocals).1
  trimmed_eq : trimmed = frames.trim flow liveness

section Trimming

variable {body : Body} {branches completed flow : Flow} {frames trimmed : Frames}
  {liveness : Liveness}
  (trimming : Trimming hierarchy body branches completed flow frames liveness trimmed)

include trimming

theorem Trimming.enters : frames.Enters flow := by
  have ⟨sized, _⟩ := shaped_computeFrames trimming.computed
  have ⟨sound, size_eq⟩ :=
    (withThrows_computeFrames trimming.built trimming.computed).completed_sound
  intro exit target isTarget
  rw [trimming.flow_eq] at isTarget ⊢
  by_cases inBounds : target < body.instructions.size
  · exact .inl (sound.entry_of_target isTarget (size_eq ▸ inBounds)).1
  · right
    rw [Frames.at?_eq, Array.getElem?_eq_none (sized ▸ Nat.le_of_not_lt inBounds),
      Option.getD_none]

theorem Trimming.coherent :
    ∃ ranges, flow.Coherent (body.instructions.size + 1)
      body.instructions.size ranges := by
  rw [trimming.flow_eq]
  exact coherent_completed trimming.built trimming.computed

theorem Trimming.closed : flow.Closed := by
  rw [trimming.flow_eq]
  exact (withThrows_computeFrames trimming.built trimming.computed).closed.1

theorem Trimming.trims : frames.TrimmedTo liveness trimmed := by
  rw [trimming.trimmed_eq]
  exact .trim (shaped_computeFrames trimming.computed).2 (.refl liveness frames)

theorem Trimming.lt_maxLocals {position slot : Nat} {type : ValueType}
    (held : trimmed.localAt position slot = some type) : slot < body.code.maxLocals := by
  obtain ⟨frame, there, held⟩ := Frames.localAt_eq_some.mp (trimming.trims.localAt held)
  have shaped := (shaped_computeFrames trimming.computed).2 position frame there
  exact shaped.size_eq ▸ Frame.lt_size_of_localAt held

theorem Trimming.accounted : Frames.Accounted flow liveness frames trimmed := by
  rw [trimming.trimmed_eq]
  exact (Frames.Accounted.refl flow liveness frames).trim
    (shaped_computeFrames trimming.computed).2 trimming.enters

theorem Trimming.localAt_of_drops {exit position slot : Nat}
    (undisturbed : frames.Undisturbed flow liveness exit)
    (drops : frames.Drops flow liveness exit position slot) :
    trimmed.localAt position slot = none := by
  rw [trimming.trimmed_eq]
  exact Frames.localAt_trim_of_drops (shaped_computeFrames trimming.computed).2
    trimming.enters undisturbed drops

end Trimming

/-- Compute the frames of a method, trim them, and look at what has come out. -/
def observe {α : Type} (body : Body) (look : Flow → Frames → Liveness → Frames → α) :
    Query hierarchy α := do
  let branches ← ofExcept (Flow.ofCode body.code)
  let (frames, completed) ← computeFrames body branches
  let flow := (completed.protect body.instructions).closeBlocks
  let liveness := (Liveness.compute body.instructions flow frames body.code.maxLocals).1
  return look flow frames liveness (frames.trim flow liveness)

theorem exists_trimming {α : Type} {body : Body}
    {look : Flow → Frames → Liveness → Frames → α} {seen : α}
    (observed : (observe body look : Query hierarchy α).eval = .ok seen) :
    ∃ branches completed flow frames liveness trimmed,
      Trimming hierarchy body branches completed flow frames liveness trimmed ∧
        look flow frames liveness trimmed = seen := by
  rcases eval_bind_eq_ok.mp observed with ⟨branches, built, observed⟩
  rcases eval_bind_eq_ok.mp observed with ⟨⟨frames, completed⟩, computed, observed⟩
  rw [eval_ofExcept] at built
  exact ⟨branches, completed, _, frames, _, _, ⟨built, computed, rfl, rfl, rfl⟩,
    Except.ok.inj observed⟩

/-! ## Wide values -/

section Trimming

variable {body : Body} {branches completed flow : Flow} {frames trimmed : Frames}
  {liveness : Liveness}

/-- A wide value stays whole unless the end of a block drops one of its halves.  The
lower half takes the upper one along, while the upper half may go alone; and what the
end of an undisturbed block drops is gone. -/
theorem wide_locals_are_whole_unless_dropped
    (trimming : Trimming hierarchy body branches completed flow frames liveness trimmed) :
    (∀ position slot, trimmed.WideAt position slot → frames.WideAt position slot) ∧
    ∀ position slot, frames.WideAt position slot →
      (trimmed.localAt position slot = frames.localAt position slot ∧
          trimmed.localAt position (slot + 1) = some .top ∨
        trimmed.localAt position slot = frames.localAt position slot ∧
          trimmed.localAt position (slot + 1) = none ∧
          (∃ exit, frames.Drops flow liveness exit position (slot + 1)) ∨
        trimmed.localAt position slot = none ∧
        trimmed.localAt position (slot + 1) = none ∧
          ∃ exit, frames.Drops flow liveness exit position slot) ∧
      ∀ exit, frames.Undisturbed flow liveness exit →
        (frames.Drops flow liveness exit position slot →
          trimmed.localAt position slot = none ∧
          trimmed.localAt position (slot + 1) = none) ∧
        (frames.Drops flow liveness exit position (slot + 1) →
          trimmed.localAt position (slot + 1) = none) := by
  have accounted := trimming.accounted
  have trims := accounted.trims
  have shaped := (shaped_computeFrames trimming.computed).2
  constructor
  · rintro position slot ⟨type, held, isWide⟩
    exact ⟨type, trims.localAt held, isWide⟩
  rintro position slot ⟨type, held, width⟩
  have isWide : frames.WideAt position slot := ⟨type, held, width⟩
  have isUpper := Frames.upper_of_wideAt shaped held width
  constructor
  · cases lower : trimmed.localAt position slot with
    | none =>
        have isUsable : frames.Usable slot position := by
          refine ⟨type, held, ?_⟩
          rintro rfl
          cases width
        exact .inr (.inr ⟨rfl, accounted.paired isWide lower,
          accounted.exists_drops shaped isUsable lower⟩)
    | some kept =>
        have isKept := (trims.localAt lower).symm
        cases upper : trimmed.localAt position (slot + 1) with
        | some other => exact .inl ⟨isKept, (trims.localAt upper).symm.trans isUpper⟩
        | none =>
            exact .inr (.inl ⟨isKept, rfl,
              accounted.exists_drops_upper shaped isWide (by simp [lower]) upper⟩)
  · intro exit undisturbed
    refine ⟨fun drops => ?_, trimming.localAt_of_drops undisturbed⟩
    have isEmpty := trimming.localAt_of_drops undisturbed drops
    exact ⟨isEmpty, accounted.paired isWide isEmpty⟩

end Trimming

theorem observe_joining : (observe joiningBody (fun flow _ _ trimmed =>
      (flow.entries.contains 7, trimmed.localAt 4 1, trimmed.localAt 4 2)) :
        Query ⟨[]⟩ _).eval =
    .ok (true, some .long, none) := by
  decide +kernel

/-- Where the wide local of one branch is still to be used, its upper half has been
dropped.  No walk comes to the end of this branch from behind. -/
theorem joining_local_drops_upper_half :
    ∃ branches completed flow frames liveness trimmed,
      Trimming ⟨[]⟩ joiningBody branches completed flow frames liveness trimmed ∧
      frames.Undisturbed flow liveness 6 ∧
      frames.WideAt 4 1 ∧ trimmed.localAt 4 1 = some .long ∧ trimmed.localAt 4 2 = none ∧
      ∃ exit, frames.Drops flow liveness exit 4 2 := by
  rcases exists_trimming observe_joining with
    ⟨branches, completed, flow, frames, liveness, trimmed, trimming, seen⟩
  simp only [Prod.mk.injEq] at seen
  rcases seen with ⟨isEntry, lower, upper⟩
  have ⟨wides, parts⟩ := wide_locals_are_whole_unless_dropped trimming
  have isWide := wides 4 1 ⟨.long, lower, rfl⟩
  refine ⟨branches, completed, flow, frames, liveness, trimmed, trimming,
    Frames.undisturbed_of_entry isEntry, isWide, lower, upper, ?_⟩
  rcases (parts 4 1 isWide).1 with ⟨_, isWhole⟩ | ⟨_, _, dropped⟩ | ⟨isGone, _⟩
  · cases isWhole.symm.trans upper
  · exact dropped
  · cases isGone.symm.trans lower

/-- A wide value may stay without its upper half. -/
theorem joining_local_is_not_whole :
    ∃ branches completed flow frames liveness trimmed,
      Trimming ⟨[]⟩ joiningBody branches completed flow frames liveness trimmed ∧
      ¬∀ position slot, trimmed.WideAt position slot →
        trimmed.localAt position (slot + 1) = some .top := by
  rcases exists_trimming observe_joining with
    ⟨branches, completed, flow, frames, liveness, trimmed, trimming, seen⟩
  simp only [Prod.mk.injEq] at seen
  rcases seen with ⟨_, lower, upper⟩
  refine ⟨branches, completed, flow, frames, liveness, trimmed, trimming, ?_⟩
  intro whole
  cases upper.symm.trans (whole 4 1 ⟨.long, lower, rfl⟩)

/-! ## Reads -/

section Trimming

variable {body : Body} {branches completed flow : Flow} {frames trimmed : Frames}
  {liveness : Liveness}

/-- A local that is loaded keeps its value.  One that is incremented keeps it unless the
end of a block drops it, and what the end of an undisturbed block drops is gone. -/
theorem loaded_locals_stay_and_incremented_ones_unless_dropped
    (trimming : Trimming hierarchy body branches completed flow frames liveness trimmed) :
    (∀ position kind slot, body.instructions[position]? = some (.load kind slot) →
      frames.Usable slot position →
      trimmed.localAt position slot = frames.localAt position slot) ∧
    ∀ position slot amount, body.instructions[position]? = some (.increment slot amount) →
      frames.Usable slot position →
      (trimmed.localAt position slot = frames.localAt position slot ∨
        trimmed.localAt position slot = none ∧
          ∃ exit, frames.Drops flow liveness exit position slot) ∧
      ∀ exit, frames.Undisturbed flow liveness exit →
        frames.Drops flow liveness exit position slot →
        trimmed.localAt position slot = none := by
  have accounted := trimming.accounted
  have ⟨sized, shaped⟩ := shaped_computeFrames trimming.computed
  constructor
  · intro position kind slot found isUsable
    apply accounted.trims.localAt_of_live _ isUsable
    rw [trimming.liveness_eq]
    exact Liveness.mem_compute_of_load sized shaped found isUsable
  · intro position slot amount _ isUsable
    refine ⟨?_, fun exit => trimming.localAt_of_drops⟩
    cases kept : trimmed.localAt position slot with
    | some other => exact .inl (accounted.trims.localAt kept).symm
    | none => exact .inr ⟨rfl, accounted.exists_drops shaped isUsable kept⟩

end Trimming

/-- A method with a counter in one branch, which is counted up for the last time before
the branch ends. -/
def steppingBody : Body :=
  .plain [.base .int] 1 2 #[.load .int 0, .branchZero .eq ⟨0⟩, .intConstant 1,
    .store .int 1, .load .int 1, .pop, .increment 1 1, .label ⟨0⟩, .returnVoid]

theorem observe_stepping : (observe steppingBody (fun _ frames _ trimmed =>
      (frames.localAt 4 1, frames.localAt 6 1, trimmed.localAt 6 1)) :
        Query ⟨[]⟩ _).eval =
    .ok (some .int, some .int, none) := by
  decide +kernel

/-- The load of the counter keeps it, and where it is counted up it has been dropped. -/
theorem stepping_counter_is_dropped :
    ∃ branches completed flow frames liveness trimmed,
      Trimming ⟨[]⟩ steppingBody branches completed flow frames liveness trimmed ∧
      frames.Usable 1 4 ∧ trimmed.localAt 4 1 = some .int ∧
      frames.Usable 1 6 ∧ ∃ exit, frames.Drops flow liveness exit 6 1 := by
  rcases exists_trimming observe_stepping with
    ⟨branches, completed, flow, frames, liveness, trimmed, trimming, seen⟩
  simp only [Prod.mk.injEq] at seen
  rcases seen with ⟨loaded, counted, isGone⟩
  have ⟨loads, increments⟩ :=
    loaded_locals_stay_and_incremented_ones_unless_dropped trimming
  have usableLoaded : frames.Usable 1 4 := ⟨.int, loaded, by decide⟩
  have usableCounted : frames.Usable 1 6 := ⟨.int, counted, by decide⟩
  refine ⟨branches, completed, flow, frames, liveness, trimmed, trimming, usableLoaded,
    (loads 4 .int 1 rfl usableLoaded).trans loaded, usableCounted, ?_⟩
  rcases (increments 6 1 1 rfl usableCounted).1 with stays | ⟨_, dropped⟩
  · cases (isGone.symm.trans stays).trans counted
  · exact dropped

/-- An increment may have lost the local that it reads. -/
theorem stepping_counter_does_not_stay :
    ∃ branches completed flow frames liveness trimmed,
      Trimming ⟨[]⟩ steppingBody branches completed flow frames liveness trimmed ∧
      ¬∀ position slot amount,
        steppingBody.instructions[position]? = some (.increment slot amount) →
        frames.Usable slot position →
        trimmed.localAt position slot = frames.localAt position slot := by
  rcases exists_trimming observe_stepping with
    ⟨branches, completed, flow, frames, liveness, trimmed, trimming, seen⟩
  simp only [Prod.mk.injEq] at seen
  rcases seen with ⟨_, counted, isGone⟩
  refine ⟨branches, completed, flow, frames, liveness, trimmed, trimming, ?_⟩
  intro stay
  have same := stay 6 1 1 rfl ⟨.int, counted, by decide⟩
  cases (isGone.symm.trans same).trans counted

end LocalTable.Query
