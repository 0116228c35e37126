import LocalTable.Proofs.Frames.Settling
import LocalTable.Proofs.Process
import LocalTable.Proofs.Refine.Settling

/-!
# Methods that do not break down

The analysis of a method breaks down if control leads behind the code, if a wide value
comes from the last slot, or if a loop over the method does not end; and there may be no
number left for a label.  Only the hierarchy can keep a loop from ending, and the rest
can be seen from the code.  Where nothing of this is the case, every failure is an
ordinary one.
-/

namespace LocalTable

/-- The code gives no cause for a breakdown: control does not lead behind it, nothing is
loaded from the last slot, and there is room for labels. -/
structure Code.Sturdy (code : Code) : Prop where
  endsPlainly : Flow.EndsPlainly code
  inReach : ∀ instruction ∈ code.instructions, instruction.loaded? ≠ some Frame.lastSlot
  hasRoom : code.HasRoom

namespace Flow

/-- Branches and handlers fail at missing labels only. -/
theorem isBreakdown_of_ofCode {code : Code} {error : Error}
    (failed : ofCode code = .error error) :
    error.isBreakdown = false := by
  refine Bool.eq_false_iff.mpr fun breaksDown => ?_
  have resolves (label : Label) (position : Nat) :
      code.positionOf label position ≠ .error error := by
    unfold Code.positionOf
    split
    next => exact nofun
    next =>
      rintro ⟨⟩
      cases breaksDown
  refine bind_ne_error (mapM_ne_error fun handler => ?_)
    (fun ranges => foldlM_ne_error ?_) failed
  · exact bind_ne_error (resolves _ _) fun _ => bind_ne_error (resolves _ _) fun _ =>
      bind_ne_error (resolves _ _) nofun
  · rintro flow ⟨instruction, position⟩
    dsimp only [addInstruction]
    split
    next => exact nofun
    next =>
      refine bind_ne_error (bind_ne_error (mapM_ne_error fun _ => resolves _ _)
        fun _ => ?_) nofun
      split <;> exact nofun

/-- Where edges and handlers lie in the code, control does not lead out of it. -/
theorem Coherent.lt_of_leads {flow : Flow} {size position target : Nat}
    {ranges : List ProtectedRange} {instruction : Instruction}
    (coherent : flow.Coherent size size ranges) (inside : Inside size ranges)
    (leads : Query.Leads flow position instruction target) : target < size := by
  cases leads with
  | receiver isReceiver =>
      unfold Query.receivers at isReceiver
      split at isReceiver
      next => exact coherent.target_lt isReceiver
      next =>
        split at isReceiver
        next => cases isReceiver
        next =>
          split at isReceiver
          next inBounds =>
            rw [List.mem_singleton.mp isReceiver, ← coherent.size_eq]
            exact inBounds
          next => cases isReceiver
  | handler _ isAround =>
      obtain ⟨inRanges, _⟩ := Query.mem_around.mp isAround
      exact (inside _ (coherent.ranges_eq ▸ inRanges)).2

end Flow

namespace Query

variable {hierarchy : Hierarchy} {body : Body} {branches : Flow}

/-- Where control stays in the code and nothing is loaded from the last slot, no step of
the computation of frames breaks down. -/
theorem failsOnly_computeFrames {ranges : List ProtectedRange}
    (acyclic : hierarchy.Acyclic) (rooted : hierarchy.Rooted)
    (inside : Flow.Inside body.instructions.size ranges)
    (coherent : branches.Coherent body.instructions.size body.instructions.size ranges)
    (inReach : ∀ instruction ∈ body.instructions,
      instruction.loaded? ≠ some Frame.lastSlot) :
    (computeFrames body branches : Query hierarchy _).FailsOnly
      fun error => error.isBreakdown = false := by
  have ordinary (error : Error) (isOrdinary : error.isBreakdown = false) :
      error = .unsettled ∨ error.isBreakdown = false := .inr isOrdinary
  refine (decides_computeFrames acyclic rooted body branches).failsOnly ?_
  unfold computeFrames
  split
  · exact .pure _
  · refine .bind (failsOnly_seeds ordinary body) fun seeds seeded => ?_
    rw [eval_ofExcept] at seeded
    refine .bind ?_ fun settled _ => .bind nofun fun _ _ => .pure _
    -- The edges of the flow lie in the code, and each position of the code has a place.
    refine (Guarantees.iterate
      (P := fun reached => reached.flow.Coherent body.instructions.size
      body.instructions.size ranges ∧ reached.frames.size = body.instructions.size)
      (Q := fun _ => True) (.inl rfl) ⟨coherent, (Body.seeds_spec seeded).1⟩ ?_).failsOnly
    rintro before ⟨beforeCoherent, size_eq⟩
    refine ⟨fun outcome stepped => ?_, failsOnly_propagateStep ordinary ?_ ?_⟩
    · cases outcome with
      | inl next =>
          have advances := advances_of_propagateStep stepped
          refine ⟨advances.keeps_flow ?_ beforeCoherent,
            advances.extended.2.trans size_eq⟩
          exact fun _ _ _ _ inBounds reached added =>
            reached.addThrow inside inBounds added
      | inr => trivial
    · exact fun position instruction found isLast =>
        absurd isLast (inReach instruction (Array.mem_of_getElem? found))
    · intro position instruction target _ leads outside
      have inCode := beforeCoherent.lt_of_leads inside leads
      omega

theorem failsOnly_analyze (acyclic : hierarchy.Acyclic) (rooted : hierarchy.Rooted)
    (sturdy : body.code.Sturdy) :
    (analyze body : Query hierarchy _).FailsOnly fun error =>
      error.isBreakdown = false := by
  refine .bind (fun error failed => ?_) fun branches built => ?_
  · rw [eval_ofExcept] at failed
    exact Flow.isBreakdown_of_ofCode failed
  · rw [eval_ofExcept] at built
    obtain ⟨ranges, inside, coherent⟩ := Flow.coherent_ofCode (Nat.le_refl _)
      (Flow.leadsBelow_of_endsPlainly sturdy.endsPlainly) built
    refine .bind (failsOnly_computeFrames acyclic rooted inside coherent
      sturdy.inReach) ?_
    rintro ⟨frames, completed⟩ computed
    obtain ⟨_, closedCoherent⟩ := coherent_completed built computed
    refine .bind nofun fun liveness _ => ?_
    refine .bind (failsOnly_refine (fun _ => id) closedCoherent _)
      fun refined _ error failed => ?_
    rw [eval_buildScopes] at failed
    cases failed

/-- A method whose code gives no cause for it does not break down. -/
theorem failsOnly_processMethod {owner : BinaryName} {method : Method}
    {settings : Settings} (acyclic : hierarchy.Acyclic) (rooted : hierarchy.Rooted)
    (sturdy : ∀ code, method.code = some code → code.Sturdy) :
    (processMethod owner method settings : Query hierarchy _).FailsOnly
      fun error => error.isBreakdown = false := by
  intro error failed
  rcases @Edit.processMethod_yields hierarchy owner settings method with
    ⟨code, cause, _, hasCode, thwarts, yields⟩ | ⟨changed, after, yields, _⟩
  · cases failed.symm.trans yields.eval_apply
    rcases thwarts with analysisFails | ⟨_, crowded⟩
    · exact failsOnly_analyze acyclic rooted (sturdy code hasCode) error analysisFails
    · exact absurd (sturdy code hasCode).hasRoom crowded
  · cases failed.symm.trans yields.eval_apply

end Query

end LocalTable
