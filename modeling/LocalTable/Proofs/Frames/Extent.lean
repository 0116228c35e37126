import LocalTable.Proofs.Frames.Fixpoint
import LocalTable.Proofs.Frames.Seeds

/-!
# How far frames extend

A position gets a frame as soon as the frame of a position before it is carried on.
Frames are carried on from pending positions only: the entries of the flow at the
start, and later each position whose frame changes.

The frame of a snapshot is there from the start.  If its position is no entry, and
no frame that control brings there changes it, then it is never carried on, and what
lies behind it may be left without a frame.
-/

namespace LocalTable

/-- Control can go on from one position to the other one. -/
def Code.Continues (code : Code) (source target : Nat) : Prop :=
  ∃ instruction before after passed, code.instructions[source]? = some instruction ∧
    code.Passes source instruction before after target passed

theorem Code.continues_next {code : Code} {source : Nat} {instruction : Instruction}
    (found : code.instructions[source]? = some instruction)
    (goesOn : instruction.GoesOn ∨ instruction.isConditionalJump = true)
    (inBounds : source + 1 < code.instructions.size) :
    code.Continues source (source + 1) := by
  refine ⟨instruction, .empty 0 0, .empty 0 0, .empty 0 0, found, ?_⟩
  rcases goesOn with goesOn | isConditional
  · exact .next goesOn.noJump goesOn.noReturn goesOn.noThrow inBounds
  · exact .notTaken isConditional inBounds

/-- What a frame holds, apart from how it came about. -/
def Frame.contents (frame : Frame) : Array (Option ValueType) × List Cell :=
  (frame.locals, frame.stack)

/-- The position is no entry of the flow, and what its frame holds is what is given
for it. -/
def Frames.Rests (seeds : Frames) (branches : Flow) (frames : Frames)
    (position : Nat) : Prop :=
  position ∉ branches.entries ∧ (seeds.at? position).isSome = true ∧
    (frames.at? position).map Frame.contents = (seeds.at? position).map Frame.contents

instance (seeds : Frames) (branches : Flow) (frames : Frames) (position : Nat) :
    Decidable (seeds.Rests branches frames position) :=
  inferInstanceAs (Decidable (_ ∧ _ ∧ _))

/-- A snapshot stands at the position, and nothing shows that its frame has ever been
carried on. -/
def Body.Stalls (body : Body) (branches : Flow) (frames : Frames)
    (position : Nat) : Prop :=
  ∃ seeds, body.seeds = .ok seeds ∧ seeds.Rests branches frames position

/-- A static method without handlers that returns nothing. -/
def Body.plain (parameters : List FieldType) (maxStack maxLocals : Nat)
    (instructions : Array Instruction) : Body :=
  { owner := .object
    descriptor := ⟨parameters, none⟩
    isStatic := true
    code := ⟨maxStack, maxLocals, instructions, [], none⟩ }

namespace Query

variable {hierarchy : Hierarchy} {branches : Flow} {seeds : Frames}

/-! ## What deliveries keep -/

/-- Positions with frames keep them, and a frame holds something else than before only
at a pending position. -/
structure Widens (before after : Propagation) : Prop where
  size_eq : after.frames.size = before.frames.size
  framed {position : Nat} (isFramed : (before.frames.at? position).isSome = true) :
    (after.frames.at? position).isSome = true
  pending {position : Nat} (isPending : position ∈ before.pending) :
    position ∈ after.pending
  changed (position : Nat) : position ∈ after.pending ∨
    (after.frames.at? position).map Frame.contents =
      (before.frames.at? position).map Frame.contents

theorem Widens.refl (propagation : Propagation) : Widens propagation propagation :=
  ⟨rfl, id, id, fun _ => .inr rfl⟩

theorem Widens.trans {before middle after : Propagation} (first : Widens before middle)
    (second : Widens middle after) : Widens before after where
  size_eq := second.size_eq.trans first.size_eq
  framed isFramed := second.framed (first.framed isFramed)
  pending isPending := second.pending (first.pending isPending)
  changed position := by
    rcases second.changed position with isPending | same
    · exact .inl isPending
    · exact (first.changed position).imp second.pending same.trans

/-- A position that becomes pending may get any frame. -/
theorem widens_push {before : Propagation} (tidy : before.Tidy) (position : Nat)
    (frame : Frame) :
    Widens before ({ before with frames := before.frames.put position frame }.push
      position) := by
  have stored : Propagation.Tidy
      { before with frames := before.frames.put position frame } :=
    ⟨tidy.nodup, tidy.queued_iff⟩
  constructor
  · rw [Propagation.frames_push, Frames.size_put]
  · intro other isFramed
    rw [Propagation.frames_push]
    exact Frames.isSome_at?_put isFramed
  · intro other isPending
    exact stored.mem_push.mpr (.inr isPending)
  · intro other
    rw [Propagation.frames_push, Frames.at?_put]
    split
    next same => exact .inl (stored.mem_push.mpr (.inl same.1))
    next => exact .inr rfl

/-- Any position may get a frame that holds the same. -/
theorem widens_put {before : Propagation} {position : Nat} {existing frame : Frame}
    (there : before.frames.at? position = some existing)
    (same : frame.contents = existing.contents) :
    Widens before { before with frames := before.frames.put position frame } := by
  refine ⟨Frames.size_put .., Frames.isSome_at?_put, id, fun other => .inr ?_⟩
  rw [Frames.at?_put]
  split
  next isOther => rw [isOther.1, there, Option.map_some, Option.map_some, same]
  next => rfl

/-- A delivery leaves a frame at its position. -/
theorem Delivers.widens {frame : Frame} {position : Nat} {before after : Propagation}
    (tidy : before.Tidy) (delivers : Delivers hierarchy frame position before after) :
    Widens before after ∧ (position < before.frames.size →
      (after.frames.at? position).isSome = true) := by
  have isSome_put {frame : Frame} (inBounds : position < before.frames.size) :
      ((before.frames.put position frame).at? position).isSome = true := by
    rw [Frames.at?_put, if_pos ⟨rfl, inBounds⟩, Option.isSome_some]
  cases delivers with
  | first =>
      rw [Propagation.frames_push]
      exact ⟨widens_push tidy position frame, isSome_put⟩
  | @joined existing merged changed _ there joins =>
      cases changed with
      | true =>
          rw [if_pos rfl, Propagation.frames_push]
          exact ⟨widens_push tidy position merged, isSome_put⟩
      | false =>
          rw [if_neg Bool.false_ne_true]
          refine ⟨widens_put there ?_, isSome_put⟩
          rw [joins.unchanged rfl]
          rfl

theorem widens_deliverAll {sent : List Sent} {before after : Propagation}
    (tidy : before.Tidy)
    (delivered : (deliverAll sent before : Query hierarchy _).eval = .ok after) :
    after.Tidy ∧ Widens before after ∧ ∀ one ∈ sent, one.target < before.frames.size →
      (after.frames.at? one.target).isSome = true := by
  induction sent generalizing before with
  | nil =>
      cases delivered
      exact ⟨tidy, .refl after, nofun⟩
  | cons first rest ih =>
      rw [deliverAll, List.foldlM_cons] at delivered
      obtain ⟨middle, firstDelivered, delivered⟩ := eval_bind_eq_ok.mp delivered
      have delivers := deliver_eq_ok firstDelivered
      obtain ⟨widens, framed⟩ := delivers.widens tidy
      obtain ⟨tidyAfter, widensOn, framedRest⟩ := ih (delivers.tidy tidy) delivered
      refine ⟨tidyAfter, widens.trans widensOn, fun one member inBounds => ?_⟩
      rcases List.mem_cons.mp member with rfl | member
      · exact widensOn.framed (framed inBounds)
      · exact framedRest one member (widens.size_eq ▸ inBounds)

/-! ## The invariant -/

/-- Every position that control leads to from the given one has a frame. -/
def HandedOn (branches : Flow) (frames : Frames) (position : Nat)
    (instruction : Instruction) :
    Prop :=
  ∀ target, Leads branches position instruction target → target < frames.size →
    (frames.at? target).isSome = true

/-- Where a frame can be: at a pending position, at a snapshot that still holds what is
given for it, or where frames have been handed on. -/
def Accounted (branches : Flow) (seeds : Frames) (propagation : Propagation)
    (position : Nat) (instruction : Instruction) : Prop :=
  position ∈ propagation.pending ∨ seeds.Rests branches propagation.frames position ∨
    HandedOn branches propagation.frames position instruction

/-- The first position has a frame, and all frames are accounted for. -/
structure Extent (instructions : Array Instruction) (branches : Flow) (seeds : Frames)
    (propagation : Propagation) : Prop where
  tidy : propagation.Tidy
  extended : Extended instructions branches propagation.flow
  first : (propagation.frames.at? 0).isSome = true
  accounted {position : Nat} {instruction : Instruction}
    (found : instructions[position]? = some instruction)
    (isFramed : (propagation.frames.at? position).isSome = true) :
    Accounted branches seeds propagation position instruction

theorem Widens.accounted {before after : Propagation} {position : Nat}
    {instruction : Instruction} (widens : Widens before after)
    (accounted : (before.frames.at? position).isSome = true →
      Accounted branches seeds before position instruction)
    (isFramed : (after.frames.at? position).isSome = true) :
    Accounted branches seeds after position instruction := by
  rcases widens.changed position with isPending | same
  · exact .inl isPending
  · have wasFramed : (before.frames.at? position).isSome = true := by
      rw [← Option.isSome_map, ← same, Option.isSome_map]
      exact isFramed
    rcases accounted wasFramed with isPending | ⟨notEntry, isSeed, rests⟩ | handedOn
    · exact .inl (widens.pending isPending)
    · exact .inr (.inl ⟨notEntry, isSeed, same.trans rests⟩)
    · exact .inr (.inr fun target leads inBounds =>
        widens.framed (handedOn target leads (widens.size_eq ▸ inBounds)))

theorem Extent.advances {instructions : Array Instruction} {before after : Propagation}
    (extent : Extent instructions branches seeds before)
    (advances : Advances hierarchy instructions before after) :
    Extent instructions branches seeds after := by
  have extended := extent.extended.trans advances.extended.1
  cases advances with
  | @idle position rest pending_eq nothing =>
      refine ⟨tidy_popped extent.tidy pending_eq _, extended, extent.first,
        fun {other _} found isFramed => ?_⟩
      apply (extent.accounted found isFramed).imp_left
      intro isPending
      rw [pending_eq] at isPending
      rcases List.mem_cons.mp isPending with rfl | isPending
      · rcases nothing with noInstruction | noFrame
        · cases noInstruction.symm.trans found
        · exact absurd (noFrame ▸ isFramed : (none : Option Frame).isSome = true) nofun
      · exact isPending
  | @carries position rest instruction frame flow sent _ pending_eq found
      there throws sends delivered =>
      obtain ⟨tidy, widens, framed⟩ :=
        widens_deliverAll (tidy_popped extent.tidy pending_eq flow) delivered
      have flow_eq : after.flow = flow := (eq_of_deliverAll delivered).1
      refine ⟨tidy, extended, widens.framed extent.first,
        fun {other otherInstruction} foundOther isFramed => ?_⟩
      by_cases same : other = position
      · -- The frame of this position has just been carried on.
        subst same
        cases found.symm.trans foundOther
        refine .inr (.inr fun target leads inBounds => ?_)
        have leadsNow := (Leads.of_extended extended found).mpr leads
        obtain ⟨one, member, rfl⟩ := (flow_eq ▸ leadsNow).sent sends
        exact framed one member (widens.size_eq ▸ inBounds)
      · refine widens.accounted (fun wasFramed => ?_) isFramed
        apply (extent.accounted foundOther wasFramed).imp_left
        intro isPending
        rw [pending_eq] at isPending
        exact (List.mem_cons.mp isPending).resolve_left same

/-! ## From the first position on -/

/-- The first position has a frame from the start. -/
theorem isSome_seeds {body : Body} (nonempty : body.instructions.size ≠ 0)
    (seeded : body.seeds = .ok seeds) : (seeds.at? 0).isSome = true := by
  obtain ⟨entry, _, seeded⟩ := bind_eq_ok.mp seeded
  obtain ⟨seeding, folded, ⟨⟩⟩ := bind_eq_ok.mp seeded
  refine foldlM_zipIdx_induction (P := fun _ (seeding : Body.Seeding) =>
    (seeding.frames.at? 0).isSome = true) ?_ ?_ folded
  · intro index instruction before after _ isFramed stepped
    dsimp only [Body.seedAt] at stepped
    split at stepped
    next =>
      split at stepped
      next =>
        cases stepped
        exact Frames.isSome_at?_put isFramed
      next => cases stepped
    next =>
      cases stepped
      split
      · exact isFramed
      · exact isFramed
  · rw [Frames.at?_put, if_pos ⟨rfl, by simpa using Nat.pos_of_ne_zero nonempty⟩,
      Option.isSome_some]

theorem extent_start {body : Body} (nonempty : body.instructions.size ≠ 0)
    (seeded : body.seeds = .ok seeds) :
    Extent body.instructions branches seeds (.start branches seeds) where
  tidy := ⟨(IndexSet.nodup_toList _).filter _, fun _ => IndexSet.mem_ofList⟩
  extended := .refl branches
  first := isSome_seeds nonempty seeded
  accounted {position _} found isFramed := by
    by_cases isEntry : position ∈ branches.entries
    · have inBounds : position < seeds.size := by
        rw [(Body.seeds_spec seeded).1]
        exact (Array.getElem?_eq_some_iff.mp found).1
      exact .inl (List.mem_filter.mpr
        ⟨IndexSet.mem_toList.mpr isEntry, by simpa using inBounds⟩)
    · exact .inr (.inl ⟨isEntry, isFramed, rfl⟩)

/-- Wherever control can go on to, it leads. -/
theorem leads_of_passes {body : Body} {ranges : List ProtectedRange}
    {position target : Nat} {instruction : Instruction} {before after passed : Frame}
    (resolved : body.code.handlers.mapM (Flow.rangeOf body.code) = .ok ranges)
    (recorded : Flow.Recorded .unlimited body.code ranges body.instructions.size branches)
    (found : body.instructions[position]? = some instruction)
    (passes : body.code.Passes position instruction before after target passed) :
    Leads branches position instruction target := by
  have ranges_eq : branches.ranges = ranges := by
    rw [(Flow.Grows.within recorded.grows (Flow.unrecorded_sound ..)).ranges_eq,
      Flow.ranges_unrecorded]
  have jumps {label : Label} (isLabel : label ∈ instruction.jumpTargets)
      (leads : (∃ label ∈ instruction.jumpTargets,
        body.code.position? label = some target) ∨
        instruction.isConditionalJump = true ∧ target = position + 1) :
      Leads branches position instruction target :=
    .receiver (mem_receivers recorded (.refl branches) found isLabel leads)
  cases passes with
  | next noJump noReturn noThrow inBounds =>
      refine .receiver ?_
      simp [receivers, noJump, noReturn, noThrow, recorded.size_eq, inBounds]
  | jump isTarget placed => exact jumps isTarget (.inl ⟨_, isTarget, placed⟩)
  | notTaken isConditional =>
      obtain ⟨label, isLabel⟩ := Instruction.exists_jumpTarget isConditional
      exact jumps isLabel (.inr ⟨isConditional, rfl⟩)
  | thrown isReal member starts stops placed afterFirst beforeLast =>
      obtain ⟨range, inRanges, isRange⟩ := (mapM_eq_ok resolved).1 _ member
      obtain ⟨isFirst, isLast, isHandler, _⟩ := Flow.rangeOf_eq_ok.mp isRange
      cases starts.symm.trans isFirst
      cases stops.symm.trans isLast
      cases placed.symm.trans isHandler
      exact .handler isReal (mem_around.mpr ⟨ranges_eq ▸ inRanges,
        afterFirst, beforeLast⟩)

/-- Every position that control can reach has a frame, unless control gets there only
past a snapshot whose frame has not been carried on. -/
theorem reached_positions_have_frames {body : Body} {flow : Flow} {frames : Frames}
    {position : Nat} (built : Flow.ofCode body.code = .ok branches)
    (computed : (computeFrames body branches : Query hierarchy _).eval =
      .ok (frames, flow))
    (inBounds : position < body.instructions.size)
    (reached : Relation.ReflTransGen (fun source target =>
      ¬body.Stalls branches frames source ∧
      body.code.Continues source target) 0 position) :
    (frames.at? position).isSome = true := by
  have nonempty : body.instructions.size ≠ 0 := Nat.ne_zero_of_lt inBounds
  obtain ⟨ranges, resolved, recorded⟩ :=
    Flow.recorded_ofCode (Flow.unlimited_admits _) built
  obtain ⟨last, ⟨seeds, isSeeds, extent, size_eq⟩, isDone, rfl, rfl⟩ :=
    computeFrames_induction
    (P := fun reached => ∃ seeds, body.seeds = .ok seeds ∧
      Extent body.instructions branches seeds reached ∧
      reached.frames.size = body.instructions.size) nonempty
    (fun seeds isSeeds =>
      ⟨seeds, isSeeds, extent_start nonempty isSeeds, (Body.seeds_spec isSeeds).1⟩)
    (fun _ _ ⟨seeds, isSeeds, extent, size_eq⟩ advances =>
      ⟨seeds, isSeeds, extent.advances advances, advances.extended.2.trans size_eq⟩)
    computed
  clear inBounds
  induction reached with
  | refl => exact extent.first
  | tail _ step ih =>
      obtain ⟨goesOn, instruction, before, after, passed, found, passes⟩ := step
      rcases extent.accounted found ih with isPending | rests | handedOn
      · rw [isDone] at isPending
        cases isPending
      · exact absurd ⟨seeds, isSeeds, rests⟩ goesOn
      · exact handedOn _ (leads_of_passes resolved recorded found passes)
          (size_eq ▸ passes.target_lt)

/-- A loop behind a snapshot that describes the parameter, a byte, as an int. -/
def countingBody : Body :=
  .plain [.base .byte] 1 1 #[.nop, .snapshot (.full [.integer] []),
    .label ⟨0⟩, .load .int 0, .branchZero .ne ⟨0⟩, .returnVoid]

/-- The byte changes the frame of the snapshot, so the end of the loop is reached. -/
theorem counting_positions_have_frames :
    ∃ branches frames flow, Flow.ofCode countingBody.code = .ok branches ∧
      (computeFrames countingBody branches : Query ⟨[]⟩ _).eval = .ok (frames, flow) ∧
      5 < countingBody.instructions.size ∧
      Relation.ReflTransGen (fun source target =>
        ¬countingBody.Stalls branches frames source ∧
          countingBody.code.Continues source target) 0 5 ∧
      (frames.at? 5).isSome = true := by
  have settled : (do
      let branches ← ofExcept (Flow.ofCode countingBody.code)
      let seeds ← ofExcept countingBody.seeds
      let (frames, _) ← computeFrames countingBody branches
      return (List.range 5).all fun source =>
        !decide (seeds.Rests branches frames source) :
        Query ⟨[]⟩ Bool).eval = .ok true := by
    decide +kernel
  obtain ⟨branches, built, settled⟩ := eval_bind_eq_ok.mp settled
  rw [eval_ofExcept] at built
  obtain ⟨seeds, isSeeds, settled⟩ := eval_bind_eq_ok.mp settled
  rw [eval_ofExcept] at isSeeds
  obtain ⟨⟨frames, flow⟩, computed, moves⟩ := eval_bind_eq_ok.mp settled
  have moves : ∀ source < 5, ¬seeds.Rests branches frames source := by
    simpa using Except.ok.inj moves
  have continues (source : Nat) (bound : source < 5) :
      countingBody.code.Continues source (source + 1) := by
    have inBounds : source + 1 < countingBody.code.instructions.size :=
      Nat.succ_lt_succ bound
    rcases source with _ | _ | _ | _ | _ | source
    case succ.succ.succ.succ.zero => exact Code.continues_next rfl (.inr rfl) inBounds
    case succ.succ.succ.succ.succ => omega
    all_goals exact Code.continues_next rfl (.inl ⟨rfl, rfl, rfl⟩) inBounds
  have reached (count : Nat) (bound : count ≤ 5) :
      Relation.ReflTransGen (fun source target =>
      ¬countingBody.Stalls branches frames source ∧
        countingBody.code.Continues source target) 0 count := by
    induction count with
    | zero => exact .refl
    | succ count ih =>
        refine (ih (Nat.le_of_succ_le bound)).tail ⟨?_, ?_⟩
        · rintro ⟨others, isOthers, rests⟩
          cases isSeeds.symm.trans isOthers
          exact moves count bound rests
        · exact continues count bound
  exact ⟨branches, frames, flow, built, computed, by decide, reached 5 (Nat.le_refl 5),
    reached_positions_have_frames built computed (by decide) (reached 5 (Nat.le_refl 5))⟩

/-- A snapshot that describes just what control brings there. -/
def pausingBody : Body :=
  .plain [] 0 0 #[.nop, .snapshot .same, .returnVoid]

/-- The frame of such a snapshot is not carried on, and the last instruction is left
without a frame although control reaches it. -/
theorem pausing_position_has_no_frame :
    ∃ branches frames flow, Flow.ofCode pausingBody.code = .ok branches ∧
      (computeFrames pausingBody branches : Query ⟨[]⟩ _).eval = .ok (frames, flow) ∧
      Relation.ReflTransGen pausingBody.code.Continues 0 2 ∧ frames.at? 2 = none := by
  have settled : (do
      let branches ← ofExcept (Flow.ofCode pausingBody.code)
      let (frames, _) ← computeFrames pausingBody branches
      return frames.at? 2 : Query ⟨[]⟩ _).eval = .ok none := by
    decide +kernel
  obtain ⟨branches, built, settled⟩ := eval_bind_eq_ok.mp settled
  rw [eval_ofExcept] at built
  obtain ⟨⟨frames, flow⟩, computed, isMissing⟩ := eval_bind_eq_ok.mp settled
  have fromStart : pausingBody.code.Continues 0 1 :=
    Code.continues_next rfl (.inl ⟨rfl, rfl, rfl⟩) (by decide)
  have fromSnapshot : pausingBody.code.Continues 1 2 :=
    Code.continues_next rfl (.inl ⟨rfl, rfl, rfl⟩) (by decide)
  exact ⟨branches, frames, flow, built, computed, .tail (.single fromStart) fromSnapshot,
    Except.ok.inj isMissing⟩

end Query

end LocalTable
