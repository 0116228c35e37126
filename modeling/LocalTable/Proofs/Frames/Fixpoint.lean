import LocalTable.Hierarchy.Platform
import LocalTable.Proofs.Code
import LocalTable.Proofs.Flow.Blocks
import LocalTable.Proofs.Frames

/-!
# Computed frames are a fixpoint

Without snapshots, a frame that changes becomes pending, and a frame that is not
pending has sent everything that it has to send.  Frames only go up, so what was
sent once stays below the frame at its target.  At the end nothing is pending: then
every frame sends only what the frames at its targets cover already.

The argument is the same for every order in which joined frames go up.
-/

namespace LocalTable.Query

variable {hierarchy : Hierarchy} {le : Frame → Frame → Prop} {maxLocals : Nat}

/-- An order of frames in which joins go up. -/
structure Climbs (hierarchy : Hierarchy) (le : Frame → Frame → Prop) : Prop where
  refl (frame : Frame) : le frame frame
  trans {left middle right : Frame} (first : le left middle) (second : le middle right) :
    le left right
  join {left right merged : Frame} {changed : Bool} (computed : left.seeded = false)
    (same : left.locals.size = right.locals.size)
    (joins : JoinsFrames hierarchy left right merged changed) : le left merged ∧
      le right merged

/-- The frame has the locals of the method and does not come from a snapshot. -/
structure Computed (maxLocals : Nat) (frame : Frame) : Prop where
  size_eq : frame.locals.size = maxLocals
  seeded_eq : frame.seeded = false

theorem Computed.join {left right merged : Frame} {changed : Bool}
    (leftComputed : Computed maxLocals left) (rightComputed : Computed maxLocals right)
    (joins : JoinsFrames hierarchy left right merged changed) :
    Computed maxLocals merged := by
  have same := leftComputed.size_eq.trans rightComputed.size_eq.symm
  exact ⟨(joins.size_eq same).trans leftComputed.size_eq, joins.seeded_eq⟩

theorem computed_inductive (hierarchy : Hierarchy) (instructions : Array Instruction)
    (maxLocals : Nat) : Inductive hierarchy instructions (Computed maxLocals) where
  execute _ holds executed := by
    obtain ⟨applied, effect, rfl⟩ := Frame.execute_eq_ok executed
    exact ⟨effect.size_locals.trans holds.size_eq, rfl⟩
  caught holds pushed := by
    rw [(Frame.push_eq_ok pushed).2]
    exact ⟨holds.size_eq, holds.seeded_eq⟩
  join := .join

/-! ## Frames go up -/

/-- Frames have only gone up, and those that changed are pending. -/
structure Rises (le : Frame → Frame → Prop) (before after : Propagation) : Prop where
  size_eq : after.frames.size = before.frames.size
  kept {position : Nat} {frame : Frame}
    (there : before.frames.at? position = some frame) :
    ∃ held, after.frames.at? position = some held ∧ le frame held
  changed {position : Nat} {frame : Frame}
    (there : after.frames.at? position = some frame) :
    before.frames.at? position = some frame ∨ position ∈ after.pending
  pending {position : Nat} (isPending : position ∈ before.pending) :
    position ∈ after.pending

theorem Climbs.rises_refl (climbs : Climbs hierarchy le) (propagation : Propagation) :
    Rises le propagation propagation :=
  ⟨rfl, fun there => ⟨_, there, climbs.refl _⟩, .inl, id⟩

theorem Climbs.rises_trans {before middle after : Propagation}
    (climbs : Climbs hierarchy le) (first : Rises le before middle)
    (second : Rises le middle after) : Rises le before after where
  size_eq := second.size_eq.trans first.size_eq
  kept there := by
    obtain ⟨held, there, below⟩ := first.kept there
    obtain ⟨last, there, above⟩ := second.kept there
    exact ⟨last, there, climbs.trans below above⟩
  changed there := by
    rcases second.changed there with there | isPending
    · exact (first.changed there).imp_right second.pending
    · exact .inr isPending
  pending isPending := second.pending (first.pending isPending)

/-- The frame is covered by the one at its target. -/
def Received (le : Frame → Frame → Prop) (frames : Frames) (sent : Sent) : Prop :=
  sent.target < frames.size → ∃ held, frames.at? sent.target = some held ∧
    le sent.frame held

theorem Climbs.received {before after : Propagation} {sent : Sent}
    (climbs : Climbs hierarchy le) (rises : Rises le before after)
    (received : Received le before.frames sent) :
    Received le after.frames sent := by
  intro inBounds
  obtain ⟨held, there, below⟩ := received (rises.size_eq ▸ inBounds)
  obtain ⟨last, there, above⟩ := rises.kept there
  exact ⟨last, there, climbs.trans below above⟩

/-- Nothing is wrong with the pending positions and the frames. -/
structure Regular (maxLocals : Nat) (propagation : Propagation) : Prop where
  tidy : propagation.Tidy
  computed : AllFrames (Computed maxLocals) propagation.frames

theorem Delivers.tidy {frame : Frame} {position : Nat} {before after : Propagation}
    (delivers : Delivers hierarchy frame position before after) (tidy : before.Tidy) :
    after.Tidy := by
  have stored (frames : Frames) : Propagation.Tidy { before with frames := frames } :=
    ⟨tidy.nodup, tidy.queued_iff⟩
  cases delivers with
  | first => exact (stored _).push position
  | joined =>
      split
      · exact (stored _).push position
      · exact stored _

/-- A delivery raises one frame at most and covers the frame that it delivers. -/
theorem Climbs.delivers {sent : Sent} {before after : Propagation}
    (climbs : Climbs hierarchy le) (regular : Regular maxLocals before)
    (isComputed : Computed maxLocals sent.frame)
    (delivers : Delivers hierarchy sent.frame sent.target before after) :
    Rises le before after ∧ Received le after.frames sent := by
  have stored (frames : Frames) : Propagation.Tidy { before with frames := frames } :=
    ⟨regular.tidy.nodup, regular.tidy.queued_iff⟩
  -- The frame at the target is replaced by a higher one, and the target is pending.
  have raised {frame : Frame} (inBounds : sent.target < before.frames.size)
      (above : ∀ existing, before.frames.at? sent.target = some existing →
        le existing frame)
      (covers : le sent.frame frame) :
      Rises le before ({ before with
          frames := before.frames.put sent.target frame }.push sent.target) ∧
        Received le ({ before with
          frames := before.frames.put sent.target frame }.push sent.target).frames
              sent := by
    refine ⟨⟨?_, fun {position held} there => ?_, fun {position held} there => ?_,
      fun isPending => ?_⟩, fun _ => ⟨frame, ?_, covers⟩⟩
    · rw [Propagation.frames_push]
      exact Frames.size_put ..
    · rw [Propagation.frames_push, Frames.at?_put]
      split
      next same => exact ⟨frame, rfl, above held (same.1 ▸ there)⟩
      next => exact ⟨held, there, climbs.refl held⟩
    · rw [Propagation.frames_push, Frames.at?_put] at there
      split at there
      next same => exact .inr ((stored _).mem_push.mpr (.inl same.1))
      next => exact .inl there
    · exact (stored _).mem_push.mpr (.inr isPending)
    · rw [Propagation.frames_push, Frames.at?_put, if_pos ⟨rfl, inBounds⟩]
  cases delivers with
  | first inBounds isFirst =>
      apply raised inBounds
      · intro existing there
        cases isFirst.symm.trans there
      · exact climbs.refl _
  | @joined existing merged changed inBounds there joins =>
      have existingComputed := regular.computed _ _ there
      obtain ⟨above, covers⟩ := climbs.join existingComputed.seeded_eq
        (existingComputed.size_eq.trans isComputed.size_eq.symm) joins
      cases changed with
      | true =>
          refine raised inBounds (fun other otherThere => ?_) covers
          cases there.symm.trans otherThere
          exact above
      | false =>
          -- Nothing changed, so the stored frame is the one that was there.
          have same : merged = existing := by
            rw [joins.unchanged rfl, ← existingComputed.seeded_eq]
          subst same
          have at?_eq (position : Nat) :
              (before.frames.put sent.target merged).at? position =
                  before.frames.at? position := by
            rw [Frames.at?_put]
            split
            next same => rw [same.1, there]
            next => rfl
          refine ⟨⟨Frames.size_put .., fun {position held} held_there => ?_,
            fun {position held} held_there => ?_, id⟩, fun _ => ⟨merged, ?_, covers⟩⟩
          · exact ⟨held, (at?_eq position).trans held_there, climbs.refl held⟩
          · exact .inl ((at?_eq position).symm.trans held_there)
          · exact (at?_eq sent.target).trans there

theorem Climbs.deliverAll {sent : List Sent} {before after : Propagation}
    (climbs : Climbs hierarchy le) (regular : Regular maxLocals before)
    (computed : ∀ one ∈ sent, Computed maxLocals one.frame)
    (delivered : (deliverAll sent before : Query hierarchy _).eval = .ok after) :
    Regular maxLocals after ∧ Rises le before after ∧
    ∀ one ∈ sent, Received le after.frames one := by
  induction sent generalizing before with
  | nil =>
      cases delivered
      refine ⟨regular, climbs.rises_refl after, fun one member => ?_⟩
      cases member
  | cons first rest ih =>
      rw [Query.deliverAll, List.foldlM_cons] at delivered
      obtain ⟨middle, first_delivered, delivered⟩ := eval_bind_eq_ok.mp delivered
      have delivers := deliver_eq_ok first_delivered
      have isComputed := computed first (List.mem_cons_self ..)
      obtain ⟨rises, received⟩ := climbs.delivers regular isComputed delivers
      have regularMiddle : Regular maxLocals middle :=
        ⟨delivers.tidy regular.tidy, regular.computed.delivers .join isComputed delivers⟩
      obtain ⟨regularAfter, risesOn, receivedRest⟩ := ih regularMiddle
        (fun one member => computed one (List.mem_cons_of_mem _ member)) delivered
      refine ⟨regularAfter, climbs.rises_trans rises risesOn, fun one member => ?_⟩
      rcases List.mem_cons.mp member with rfl | member
      · exact climbs.received risesOn received
      · exact receivedRest one member

/-! ## Frames that have been carried on -/

/-- Everything that the instruction sends is covered at its target. -/
structure Carried (le : Frame → Frame → Prop) (flow : Flow) (frames : Frames)
    (position : Nat) (instruction : Instruction) (frame : Frame) : Prop where
  sends : ∃ sent, Sends flow position instruction frame sent ∧
    ∀ one ∈ sent, Received le frames one
  exit_of_throw : instruction.isThrow = true → position ∈ flow.exits

theorem Climbs.carried {instructions : Array Instruction} {before after : Propagation}
    {position : Nat} {instruction : Instruction} {frame : Frame}
    (climbs : Climbs hierarchy le)
    (extended : Extended instructions before.flow after.flow)
    (rises : Rises le before after) (found : instructions[position]? = some instruction)
    (carried : Carried le before.flow before.frames position instruction frame) :
    Carried le after.flow after.frames position instruction frame := by
  obtain ⟨sent, sends, received⟩ := carried.sends
  refine ⟨⟨sent, extended.sends found sends, fun one member => ?_⟩, fun isThrow => ?_⟩
  · exact climbs.received rises (received one member)
  · exact extended.exits (carried.exit_of_throw isThrow)

/-! ## The invariant -/

/-- Every position with a frame is pending, or its frame has been carried on; and
the first position has its frame. -/
structure Progress (le : Frame → Frame → Prop) (instructions : Array Instruction)
    (maxLocals : Nat) (entry : Frame) (propagation : Propagation) : Prop where
  regular : Regular maxLocals propagation
  settled {position : Nat} {instruction : Instruction} {frame : Frame}
    (found : instructions[position]? = some instruction)
    (there : propagation.frames.at? position = some frame) :
    position ∈ propagation.pending ∨
      Carried le propagation.flow propagation.frames position instruction frame
  first : ∃ held, propagation.frames.at? 0 = some held ∧ le entry held

theorem Regular.popped {propagation : Propagation} {position : Nat} {rest : List Nat}
    (regular : Regular maxLocals propagation)
    (pending_eq : propagation.pending = position :: rest) (flow : Flow) :
    Regular maxLocals (popped propagation position rest flow) :=
  ⟨tidy_popped regular.tidy pending_eq flow, regular.computed⟩

theorem Climbs.advances {instructions : Array Instruction} {entry : Frame}
    {before after : Propagation} (climbs : Climbs hierarchy le)
    (progress : Progress le instructions maxLocals entry before)
    (advances : Advances hierarchy instructions before after) :
    Progress le instructions maxLocals entry after := by
  cases advances with
  | @idle position rest pending_eq nothing =>
      refine ⟨progress.regular.popped pending_eq _, fun {other _ _} found there => ?_,
        progress.first⟩
      apply (progress.settled found there).imp_left
      intro isPending
      rw [pending_eq] at isPending
      rcases List.mem_cons.mp isPending with rfl | isPending
      · rcases nothing with noInstruction | noFrame
        · cases noInstruction.symm.trans found
        · cases noFrame.symm.trans there
      · exact isPending
  | @carries position rest instruction frame flow sent _ pending_eq found
      there throws sends delivered =>
      have computed := (computed_inductive hierarchy instructions maxLocals).sends found
        (progress.regular.computed _ _ there) sends
      obtain ⟨regular, rises, received⟩ :=
        climbs.deliverAll (progress.regular.popped pending_eq flow) computed delivered
      have flow_eq : after.flow = flow := (eq_of_deliverAll delivered).1
      have extended := throws.extended found
      have risesBefore : Rises le { before with pending := rest } after :=
        ⟨rises.size_eq, rises.kept, rises.changed, rises.pending⟩
      refine ⟨regular, fun {other otherInstruction held} foundOther thereAfter => ?_, ?_⟩
      · -- A frame that has changed is pending; the others were pending or carried before.
        rcases rises.changed thereAfter with thereBefore | isPending
        · rcases progress.settled foundOther thereBefore with isPending | carried
          · rw [pending_eq] at isPending
            rcases List.mem_cons.mp isPending with rfl | isPending
            · cases found.symm.trans foundOther
              cases there.symm.trans thereBefore
              refine .inr ⟨⟨sent, flow_eq ▸ sends, received⟩, fun isThrow => ?_⟩
              cases throws with
              | quiet isQuiet => cases isThrow.symm.trans isQuiet
              | throws _ added => exact flow_eq ▸ Flow.mem_exits_addThrow added
            · exact .inl (rises.pending isPending)
          · exact .inr (climbs.carried (flow_eq ▸ extended) risesBefore
              foundOther carried)
        · exact .inl isPending
      · obtain ⟨held, thereFirst, below⟩ := progress.first
        obtain ⟨last, thereLast, above⟩ := rises.kept thereFirst
        exact ⟨last, thereLast, climbs.trans below above⟩

/-! ## From the first frame to the last step -/

theorem computed_of_entryFrame {body : Body} {entry : Frame}
    (entered : body.entryFrame = .ok entry) : Computed body.code.maxLocals entry := by
  unfold Body.entryFrame at entered
  split at entered
  next frame isEntry =>
    cases entered
    refine Frame.entry_induction ?_ ?_ ?_ isEntry
    · exact ⟨Array.size_replicate, rfl⟩
    · intro before next slot type _ computed stored
      obtain ⟨_, same, size_eq⟩ := Frame.setLocal_eq_ok stored
      rw [same]
      exact ⟨size_eq.trans computed.size_eq, computed.seeded_eq⟩
    · intro before count computed
      exact ⟨computed.size_eq, computed.seeded_eq⟩
  next => cases entered

/-- Without snapshots, only the first frame is given. -/
theorem seeds_eq_ok {body : Body} {seeds : Frames}
    (plain : ∀ snapshot, .snapshot snapshot ∉ body.instructions)
    (seeded : body.seeds = .ok seeds) :
    ∃ entry, body.entryFrame = .ok entry ∧
      seeds = Frames.put (Array.replicate body.instructions.size none) 0 entry := by
  obtain ⟨entry, isEntry, seeded⟩ := bind_eq_ok.mp seeded
  obtain ⟨seeding, folded, seeded⟩ := bind_eq_ok.mp seeded
  cases seeded
  refine ⟨entry, isEntry, ?_⟩
  refine foldlM_zipIdx_induction (P := fun _ (seeding : Body.Seeding) =>
    seeding.frames = Frames.put (Array.replicate body.instructions.size none) 0 entry)
    ?_ rfl folded
  intro index instruction before after found same stepped
  dsimp only [Body.seedAt] at stepped
  split at stepped
  next snapshot =>
    exact absurd (Array.mem_of_getElem? (by simpa using found)) (plain snapshot)
  next =>
    cases stepped
    split
    · exact same
    · exact same

/-- The frames are a fixpoint: the first one is above the frame at the start, and
all others are above the frames that are sent to them. -/
structure Fixpoint (le : Frame → Frame → Prop) (body : Body) (branches completed : Flow)
    (frames : Frames) : Prop where
  size_eq : frames.size = body.instructions.size
  extended : Extended body.instructions branches completed
  computed : AllFrames (Computed body.code.maxLocals) frames
  first (nonempty : body.instructions.size ≠ 0) :
    ∃ entry held, body.entryFrame = .ok entry ∧ frames.at? 0 = some held ∧ le entry held
  carried {position : Nat} {instruction : Instruction} {frame : Frame}
    (found : body.instructions[position]? = some instruction)
    (there : frames.at? position = some frame) :
    Carried le completed frames position instruction frame

theorem Climbs.fixpoint {body : Body} {branches completed : Flow} {frames : Frames}
    (climbs : Climbs hierarchy le)
    (plain : ∀ snapshot, .snapshot snapshot ∉ body.instructions)
    (enters : body.instructions.size ≠ 0 → 0 ∈ branches.entries)
    (computed : (computeFrames body branches : Query hierarchy _).eval =
      .ok (frames, completed)) :
    Fixpoint le body branches completed frames := by
  by_cases nonempty : body.instructions.size = 0
  · obtain ⟨rfl, rfl⟩ := computeFrames_of_isEmpty nonempty computed
    exact ⟨nonempty.symm, .refl _, nofun, fun isPositive =>
      absurd nonempty isPositive, nofun⟩
  have inBounds : 0 < body.instructions.size := Nat.pos_of_ne_zero nonempty
  -- At the start there is one frame, and its position is pending.
  have start (seeds : Frames) (isSeeds : body.seeds = .ok seeds) :
      (∃ entry, body.entryFrame = .ok entry ∧
        Progress le body.instructions body.code.maxLocals entry (.start branches seeds)) ∧
      Extended body.instructions branches branches ∧
          seeds.size = body.instructions.size := by
    obtain ⟨entry, isEntry, rfl⟩ := seeds_eq_ok plain isSeeds
    refine ⟨⟨entry, isEntry, ⟨⟨?_, fun position => ?_⟩, ?_⟩,
      fun found there => .inl ?_, entry, ?_, climbs.refl entry⟩, .refl _,
        (Frames.size_put ..).trans Array.size_replicate⟩
    · exact (IndexSet.nodup_toList _).filter _
    · exact IndexSet.mem_ofList
    · intro position frame there
      rw [(Frames.eq_of_at?_put_replicate there).2]
      exact computed_of_entryFrame isEntry
    · rw [(Frames.eq_of_at?_put_replicate there).1]
      refine List.mem_filter.mpr ⟨IndexSet.mem_toList.mpr (enters nonempty), ?_⟩
      simpa using inBounds
    · change Frames.at? (Frames.put _ 0 entry) 0 = some entry
      rw [Frames.at?_put, if_pos ⟨rfl, by simpa using inBounds⟩]
  obtain ⟨last, ⟨⟨entry, isEntry, progress⟩, extended, size_eq⟩, isDone, rfl, rfl⟩ :=
    computeFrames_induction (P := fun reached =>
      (∃ entry, body.entryFrame = .ok entry ∧
        Progress le body.instructions body.code.maxLocals entry reached) ∧
      Extended body.instructions branches reached.flow ∧
      reached.frames.size = body.instructions.size) nonempty start
      (fun before after ⟨⟨entry, isEntry, progress⟩, extended, size_eq⟩ advances =>
        ⟨⟨entry, isEntry, climbs.advances progress advances⟩,
          extended.trans advances.extended.1, advances.extended.2.trans size_eq⟩) computed
  refine ⟨size_eq, extended, progress.regular.computed, fun _ => ?_,
    fun found there => ?_⟩
  · obtain ⟨held, there, below⟩ := progress.first
    exact ⟨entry, held, isEntry, there, below⟩
  · rcases progress.settled found there with isPending | carried
    · rw [isDone] at isPending
      cases isPending
    · exact carried

end LocalTable.Query

namespace LocalTable

/-! ## Frames along control -/

/-- The frame at a handler that catches an exception of the class. -/
def Frame.catching (frame : Frame) (caught : BinaryName) : Frame :=
  { frame with stack := [.anonymous (some (.object caught))] }

/-- Control passes a frame on from an instruction to another position: to the next
one, to the targets of a jump, or to a handler, which gets the locals from before
the instruction. -/
inductive Code.Passes (code : Code) (source : Nat) (instruction : Instruction)
    (before after : Frame) : Nat → Frame → Prop where
  | next (noJump : instruction.jumpTargets = []) (noReturn : instruction.isReturn = false)
      (noThrow : instruction.isThrow = false)
      (inBounds : source + 1 < code.instructions.size) :
      Passes code source instruction before after (source + 1) after
  | jump {label : Label} {target : Nat} (isTarget : label ∈ instruction.jumpTargets)
      (placed : code.position? label = some target) :
      Passes code source instruction before after target after
  | notTaken (isConditional : instruction.isConditionalJump = true)
      (inBounds : source + 1 < code.instructions.size) :
      Passes code source instruction before after (source + 1) after
  | thrown {handler : Handler} {first last target : Nat}
      (isReal : instruction.isPseudo = false)
      (member : handler ∈ code.handlers)
      (starts : code.position? handler.first = some first)
      (stops : code.position? handler.stop = some last)
      (placed : code.position? handler.handler = some target)
      (afterFirst : first ≤ source)
      (beforeLast : source ≤ last) :
      Passes code source instruction before after target
        (before.catching (handler.caught.getD .throwable))

theorem Code.Passes.target_lt {code : Code} {source target : Nat}
    {instruction : Instruction} {before after passed : Frame}
    (passes : code.Passes source instruction before after target passed) :
    target < code.instructions.size := by
  have placed_lt {label : Label} {position : Nat}
      (placed : code.position? label = some position) :
      position < code.instructions.size :=
    (Array.getElem?_eq_some_iff.mp (Code.getElem?_of_position? placed)).1
  cases passes with
  | next _ _ _ inBounds => exact inBounds
  | jump _ placed => exact placed_lt placed
  | notTaken _ inBounds => exact inBounds
  | thrown _ _ _ _ placed => exact placed_lt placed

namespace Query

variable {hierarchy : Hierarchy}

theorem subFrame_climbs (rooted : hierarchy.Rooted) :
    Climbs hierarchy hierarchy.SubFrame where
  refl := .refl
  trans := rooted.subFrame_trans
  join := subFrame_of_merge

/-- A jump hands its frame on to its targets, and a conditional one to the next
position as well. -/
theorem mem_receivers {body : Body} {branches completed : Flow}
    {ranges : List ProtectedRange} {position target : Nat} {instruction : Instruction}
    {label : Label}
    (recorded : Flow.Recorded .unlimited body.code ranges body.instructions.size branches)
    (extended : Extended body.instructions branches completed)
    (found : body.instructions[position]? = some instruction)
    (isLabel : label ∈ instruction.jumpTargets)
    (leads : (∃ label ∈ instruction.jumpTargets,
      body.code.position? label = some target) ∨
      instruction.isConditionalJump = true ∧ target = position + 1) :
    target ∈ receivers completed position instruction := by
  have inBounds : position < body.instructions.size :=
    (Array.getElem?_eq_some_iff.mp found).1
  have jumps := List.ne_nil_of_mem isLabel
  rw [receivers, if_pos (by simpa using jumps),
    extended.targets found (Instruction.isThrow_of_jumps jumps)]
  exact (Flow.mem_destinations (recorded.targets inBounds found jumps)).mpr leads

/-- The frames that an instruction sends on are those that control passes on. -/
theorem sent_of_passes {body : Body} {branches completed : Flow}
    {ranges : List ProtectedRange} {position target : Nat} {instruction : Instruction}
    {before after passed : Frame} {sent : List Sent}
    (resolved : body.code.handlers.mapM (Flow.rangeOf body.code) = .ok ranges)
    (recorded : Flow.Recorded .unlimited body.code ranges body.instructions.size branches)
    (extended : Extended body.instructions branches completed)
    (found : body.instructions[position]? = some instruction)
    (sends : Sends completed position instruction before sent)
    (executed : before.execute position instruction = .ok after)
    (computed : before.seeded = false)
    (passes : body.code.Passes position instruction before after target passed) :
    ⟨passed, target⟩ ∈ sent := by
  have size_eq : completed.size = body.instructions.size :=
    extended.size_eq.trans recorded.size_eq
  have ranges_eq : completed.ranges = ranges := by
    rw [extended.ranges_eq,
      (Flow.Grows.within recorded.grows (Flow.unrecorded_sound ..)).ranges_eq,
        Flow.ranges_unrecorded]
  have isSent (received : target ∈ receivers completed position instruction) :
      ⟨after, target⟩ ∈ sent := by
    cases sends with
    | pseudo isPseudo =>
        cases executed.symm.trans (Frame.execute_of_isPseudo computed isPseudo position)
        exact List.mem_map.mpr ⟨target, received, rfl⟩
    | real _ isRan =>
        cases executed.symm.trans isRan
        exact List.mem_append_left _ (List.mem_map.mpr ⟨target, received, rfl⟩)
  cases passes with
  | next noJump noReturn noThrow isNext =>
      apply isSent
      simp [receivers, noJump, noReturn, noThrow, size_eq, isNext, Body.instructions]
  | jump isTarget placed =>
      exact isSent (mem_receivers recorded extended found isTarget
        (.inl ⟨_, isTarget, placed⟩))
  | notTaken isConditional =>
      obtain ⟨label, isLabel⟩ := Instruction.exists_jumpTarget isConditional
      exact isSent (mem_receivers recorded extended found isLabel
        (.inr ⟨isConditional, rfl⟩))
  | thrown isReal member starts stops placed afterFirst beforeLast =>
      cases sends with
      | pseudo isPseudo => cases isPseudo.symm.trans isReal
      | real _ isRan handlers =>
          obtain ⟨range, inRanges, isRange⟩ := (mapM_eq_ok resolved).1 _ member
          obtain ⟨isFirst, isLast, isHandler, isCaught⟩ := Flow.rangeOf_eq_ok.mp isRange
          cases starts.symm.trans isFirst
          cases stops.symm.trans isLast
          cases placed.symm.trans isHandler
          have isAround : range ∈ around completed position :=
            mem_around.mpr ⟨ranges_eq ▸ inRanges, afterFirst, beforeLast⟩
          obtain ⟨one, isOne, toHandler, pushed⟩ := exists_of_mem_left handlers isAround
          have isFrame : one.frame = before.catching range.caught :=
            (Frame.push_eq_ok pushed).2
          rw [← isCaught, ← isFrame, ← toHandler]
          exact List.mem_append_right _ isOne

/-- The frames cover what control can do: the first one is at least the frame at the
start, every instruction can be executed on its frame, and the frame at every
position is at least each one that control passes on to it. -/
structure CoversControl (hierarchy : Hierarchy) (body : Body)
    (frames : Frames) : Prop where
  size_eq : frames.size = body.instructions.size
  first (nonempty : body.instructions.size ≠ 0) :
    ∃ entry held, body.entryFrame = .ok entry ∧ frames.at? 0 = some held ∧
      hierarchy.SubFrame entry held
  passed {position : Nat} {instruction : Instruction} {frame : Frame}
    (found : body.instructions[position]? = some instruction)
    (there : frames.at? position = some frame) :
    ∃ after, frame.execute position instruction = .ok after ∧
      (instruction.isPseudo = true → after = frame) ∧
      ∀ target passed, body.code.Passes position instruction frame after target passed →
        ∃ held, frames.at? target = some held ∧ hierarchy.SubFrame passed held

/-- Without snapshots, the frames of a method cover what control can do. -/
theorem computed_frames_cover_control {body : Body} {branches flow : Flow}
    {frames : Frames} (rooted : hierarchy.Rooted)
    (plain : ∀ snapshot, .snapshot snapshot ∉ body.instructions)
    (built : Flow.ofCode body.code = .ok branches)
    (computed : (computeFrames body branches : Query hierarchy _).eval =
      .ok (frames, flow)) :
    CoversControl hierarchy body frames := by
  obtain ⟨ranges, resolved, recorded⟩ :=
    Flow.recorded_ofCode (Flow.unlimited_admits _) built
  have fixpoint :=
    (subFrame_climbs rooted).fixpoint plain (Flow.entries_ofCode built).1 computed
  refine ⟨fixpoint.size_eq, fixpoint.first,
    fun {position instruction frame} found there => ?_⟩
  have carried := fixpoint.carried found there
  have isComputed := fixpoint.computed _ _ there
  obtain ⟨sent, sends, received⟩ := carried.sends
  have executes : ∃ after, frame.execute position instruction = .ok after ∧
      (instruction.isPseudo = true → after = frame) := by
    cases sends with
    | pseudo isPseudo =>
        exact ⟨frame, Frame.execute_of_isPseudo isComputed.seeded_eq isPseudo position,
          fun _ => rfl⟩
    | real isReal executed _ =>
        exact ⟨_, executed, fun isPseudo => Bool.noConfusion (isPseudo.symm.trans isReal)⟩
  obtain ⟨after, executed, same⟩ := executes
  refine ⟨after, executed, same, fun target passed passes => ?_⟩
  apply received ⟨passed, target⟩
  · exact sent_of_passes resolved recorded fixpoint.extended found sends executed
      isComputed.seeded_eq passes
  · rw [fixpoint.size_eq]
    exact passes.target_lt

/-- A loop that puts a text into a slot that held null, with a handler around it. -/
def fillingBody : Body :=
  { owner := .object
    descriptor := ⟨[], none⟩
    isStatic := true
    code :=
      { maxStack := 1
        maxLocals := 1
        instructions := #[.pushNull, .store .ref 0, .label ⟨0⟩, .load .ref 0,
          .branchNull .ne ⟨1⟩, .new .string, .store .ref 0, .goto ⟨0⟩,
            .label ⟨1⟩, .returnVoid,
          .label ⟨2⟩, .throwRef]
        handlers := [⟨⟨0⟩, ⟨1⟩, ⟨2⟩, none⟩]
        table := none } }

/-- The slot holds a text wherever the loop or its handler has been entered. -/
theorem filling_frames_cover_control :
    ∃ branches frames flow, Hierarchy.Rooted ⟨[Platform.tier]⟩ ∧
      (∀ snapshot, .snapshot snapshot ∉ fillingBody.instructions) ∧
      Flow.ofCode fillingBody.code = .ok branches ∧
      (computeFrames fillingBody branches : Query ⟨[Platform.tier]⟩ _).eval =
        .ok (frames, flow) ∧
      CoversControl ⟨[Platform.tier]⟩ fillingBody frames ∧
      [2, 6, 11].map (frames.localAt · 0) =
        List.replicate 3 (some (.object .string)) := by
  have rooted : Hierarchy.Rooted ⟨[Platform.tier]⟩ := by
    intro data found
    have isRoot : Hierarchy.find? ⟨[Platform.tier]⟩ .object =
        some ⟨.object, none, [], false⟩ := by
      decide +kernel
    cases isRoot.symm.trans found
    rfl
  have plain : ∀ snapshot, .snapshot snapshot ∉ fillingBody.instructions := by
    simp [fillingBody, Body.instructions]
  have settled : (do
      let branches ← ofExcept (Flow.ofCode fillingBody.code)
      let (frames, _) ← computeFrames fillingBody branches
      return [2, 6, 11].map (frames.localAt · 0) : Query ⟨[Platform.tier]⟩ _).eval =
        .ok (List.replicate 3 (some (.object .string))) := by
    decide +kernel
  obtain ⟨branches, built, settled⟩ := eval_bind_eq_ok.mp settled
  rw [eval_ofExcept] at built
  obtain ⟨⟨frames, flow⟩, computed, isText⟩ := eval_bind_eq_ok.mp settled
  exact ⟨branches, frames, flow, rooted, plain, built, computed,
    computed_frames_cover_control rooted plain built computed, Except.ok.inj isText⟩

end Query

end LocalTable
