import LocalTable.Frames
import LocalTable.Proofs.Flow.Growth
import LocalTable.Proofs.Frame.Merge

/-!
# Steps of frames through a method

What one step of the propagation of frames can do: it takes a pending position,
and its frame sends frames on to other positions, which are delivered one after
the other.  On the way, a throw may get edges to its handlers.  Every fact about
computed frames rests on this description of a step.
-/

namespace LocalTable

namespace Frames

variable {frames : Frames} {position other : Nat} {frame : Frame}

theorem at?_eq (frames : Frames) (position : Nat) :
    frames.at? position = (frames[position]?).getD none :=
  Array.getD_eq_getD_getElem?

@[simp] theorem size_put (frames : Frames) (position : Nat) (frame : Frame) :
    (frames.put position frame).size = frames.size :=
  Array.size_setIfInBounds

theorem at?_put :
    (frames.put position frame).at? other =
      if other = position ∧ position < frames.size then some frame
        else frames.at? other := by
  rw [at?_eq, at?_eq, put, Array.getElem?_setIfInBounds]
  by_cases same : position = other
  · subst same
    by_cases inBounds : position < frames.size
    · simp [inBounds]
    · simp [inBounds]
  · simp [same, Ne.symm same]

theorem isSome_at?_put {frames : Frames} {position other : Nat} {frame : Frame}
    (isFramed : (frames.at? other).isSome = true) :
    ((frames.put position frame).at? other).isSome = true := by
  rw [at?_put]
  split
  · rfl
  · exact isFramed

/-- A frame among no others is the only one. -/
theorem eq_of_at?_put_replicate {size : Nat} {held : Frame}
    (there : (put (Array.replicate size none) position frame).at? other = some held) :
    other = position ∧ held = frame := by
  rw [at?_put] at there
  split at there
  next same =>
    cases there
    exact ⟨same.1, rfl⟩
  next =>
    rw [at?_eq, Array.getElem?_replicate] at there
    split at there <;> cases there

theorem lt_size_of_at? (there : frames.at? position = some frame) :
    position < frames.size := by
  apply Nat.lt_of_not_le
  intro outside
  rw [at?_eq, Array.getElem?_eq_none outside] at there
  cases there

theorem localAt_eq_some {slot : Nat} {type : ValueType} :
    frames.localAt position slot = some type ↔
      ∃ frame, frames.at? position = some frame ∧ frame.localAt slot = some type :=
  Option.bind_eq_some_iff

theorem localAt_put_self {kept : Frame} (there : frames.at? position = some frame)
    (slot : Nat) : (frames.put position kept).localAt position slot =
      kept.localAt slot := by
  rw [localAt, at?_put, if_pos ⟨rfl, lt_size_of_at? there⟩, Option.bind_some]

theorem localAt_put_of_ne {kept : Frame} {changed : Nat} (differ : position ≠ changed)
    (slot : Nat) :
    (frames.put changed kept).localAt position slot = frames.localAt position slot := by
  rw [localAt, at?_put, if_neg fun same => differ same.1, localAt]

end Frames

namespace Propagation

variable {propagation : Propagation} {position other : Nat}

@[simp] theorem flow_push : (propagation.push position).flow = propagation.flow := by
  unfold push
  split <;> rfl

@[simp] theorem frames_push :
    (propagation.push position).frames = propagation.frames := by
  unfold push
  split <;> rfl

/-- Every pending position is recorded as such, and none is pending twice. -/
structure Tidy (propagation : Propagation) : Prop where
  nodup : propagation.pending.Nodup
  queued_iff (position : Nat) : position ∈ propagation.queued ↔
    position ∈ propagation.pending

theorem Tidy.push (tidy : propagation.Tidy) (position : Nat) :
    (propagation.push position).Tidy := by
  unfold Propagation.push
  split
  next => exact tidy
  next isNew =>
    have isNew : position ∉ propagation.pending := fun member =>
      isNew ((tidy.queued_iff position).mpr member)
    refine ⟨List.nodup_cons.mpr ⟨isNew, tidy.nodup⟩, fun other => ?_⟩
    rw [IndexSet.mem_insert, List.mem_cons, tidy.queued_iff]

theorem Tidy.mem_push (tidy : propagation.Tidy) :
    other ∈ (propagation.push position).pending ↔ other = position ∨
    other ∈ propagation.pending := by
  unfold Propagation.push
  split
  next isQueued =>
    constructor
    · exact .inr
    · rintro (rfl | member)
      · exact (tidy.queued_iff other).mp isQueued
      · exact member
  next => exact List.mem_cons

end Propagation

namespace Query

variable {hierarchy : Hierarchy}

theorem exists_of_mem_left {α β : Type} {R : α → β → Prop} {lefts : List α}
    {rights : List β} (related : List.Forall₂ R lefts rights) {left : α}
    (member : left ∈ lefts) :
    ∃ right ∈ rights, R left right := by
  induction related with
  | nil => cases member
  | cons head _ ih =>
      rcases List.mem_cons.mp member with rfl | member
      · exact ⟨_, List.mem_cons_self .., head⟩
      · obtain ⟨right, isRight, holds⟩ := ih member
        exact ⟨right, List.mem_cons_of_mem _ isRight, holds⟩

theorem exists_of_mem_right {α β : Type} {R : α → β → Prop} {lefts : List α}
    {rights : List β} (related : List.Forall₂ R lefts rights) {right : β}
    (member : right ∈ rights) :
    ∃ left ∈ lefts, R left right :=
  exists_of_mem_left related.flip member

/-! ## Deliveries -/

/-- What a delivery does: it brings the first frame to a position, or joins two
frames. -/
inductive Delivers (hierarchy : Hierarchy) (frame : Frame) (position : Nat)
    (propagation : Propagation) : Propagation → Prop where
  | first (inBounds : position < propagation.frames.size)
      (isFirst : propagation.frames.at? position = none) :
      Delivers hierarchy frame position propagation
        ({ propagation with frames := propagation.frames.put position frame }.push
          position)
  | joined {existing merged : Frame} {changed : Bool}
      (inBounds : position < propagation.frames.size)
      (there : propagation.frames.at? position = some existing)
      (joins : JoinsFrames hierarchy existing frame merged changed) :
      Delivers hierarchy frame position propagation
        (if changed then
          { propagation with frames := propagation.frames.put position merged }.push
            position
        else { propagation with frames := propagation.frames.put position merged })

theorem deliver_eq_ok {frame : Frame} {position : Nat} {propagation next : Propagation}
    (answered : (deliver frame propagation position : Query hierarchy _).eval =
      .ok next) :
    Delivers hierarchy frame position propagation next := by
  unfold deliver at answered
  split at answered
  next inBounds =>
    split at answered
    next existing there =>
      obtain ⟨⟨merged, changed⟩, isMerged, answered⟩ := eval_bind_eq_ok.mp answered
      cases answered
      exact .joined inBounds there (merge_eq_ok isMerged)
    next isFirst =>
      cases answered
      exact .first inBounds isFirst
  next => cases answered

theorem Delivers.flow_eq {frame : Frame} {position : Nat} {propagation next : Propagation}
    (delivers : Delivers hierarchy frame position propagation next) :
    next.flow = propagation.flow := by
  cases delivers with
  | first => rw [Propagation.flow_push]
  | joined =>
      split
      · rw [Propagation.flow_push]
      · rfl

/-- A delivery makes at most its own position pending, and gives at most that
position a frame. -/
theorem Delivers.adds {frame : Frame} {position other : Nat}
    {propagation next : Propagation}
    (delivers : Delivers hierarchy frame position propagation next) :
    (other ∈ next.pending →
      other ∈ propagation.pending ∨ other = position ∧
      position < propagation.frames.size) ∧
    ((next.frames.at? other).isSome = true →
      (propagation.frames.at? other).isSome = true ∨
        other = position ∧ position < propagation.frames.size) := by
  have pushed (propagation : Propagation)
      (member : other ∈ (propagation.push position).pending) :
      other ∈ propagation.pending ∨ other = position := by
    unfold Propagation.push at member
    split at member
    · exact .inl member
    · exact (List.mem_cons.mp member).symm
  have stored {stored : Frame}
      (isFramed : ((propagation.frames.put position stored).at? other).isSome = true) :
      (propagation.frames.at? other).isSome = true ∨
        other = position ∧ position < propagation.frames.size := by
    rw [Frames.at?_put] at isFramed
    split at isFramed
    next same => exact .inr same
    next => exact .inl isFramed
  cases delivers with
  | first inBounds =>
      rw [Propagation.frames_push]
      exact ⟨fun member => (pushed _ member).imp_right (⟨·, inBounds⟩), stored⟩
  | joined inBounds =>
      split
      · rw [Propagation.frames_push]
        exact ⟨fun member => (pushed _ member).imp_right (⟨·, inBounds⟩), stored⟩
      · exact ⟨.inl, stored⟩

/-- A delivery takes no frame away. -/
theorem Delivers.framed {frame : Frame} {position other : Nat}
    {propagation next : Propagation}
    (delivers : Delivers hierarchy frame position propagation next)
    (isFramed : (propagation.frames.at? other).isSome = true) :
    (next.frames.at? other).isSome = true := by
  cases delivers with
  | first =>
      rw [Propagation.frames_push]
      exact Frames.isSome_at?_put isFramed
  | joined =>
      split
      · rw [Propagation.frames_push]
        exact Frames.isSome_at?_put isFramed
      · exact Frames.isSome_at?_put isFramed

/-! ## What an instruction sends -/

/-- The ranges around a position. -/
def around (flow : Flow) (position : Nat) : List ProtectedRange :=
  flow.ranges.filter fun range => range.first ≤ position && position ≤ range.last

theorem mem_around {flow : Flow} {position : Nat} {range : ProtectedRange} :
    range ∈ around flow position ↔
      range ∈ flow.ranges ∧ range.first ≤ position ∧ position ≤ range.last := by
  simp [around]

/-- A frame on its way to a position. -/
structure Sent where
  frame : Frame
  target : Nat

/-- The frames that the instruction at a position sends on, given its own frame. -/
inductive Sends (flow : Flow) (position : Nat) (instruction : Instruction)
    (before : Frame) :
    List Sent → Prop where
  | pseudo (isPseudo : instruction.isPseudo = true) :
      Sends flow position instruction before
        ((receivers flow position instruction).map (⟨before, ·⟩))
  | real {after : Frame} {caught : List Sent} (isReal : instruction.isPseudo = false)
      (executed : before.execute position instruction = .ok after)
      (handlers : List.Forall₂ (fun range sent => sent.target = range.handler ∧
        before.clearStack.push (.object range.caught) none = .ok sent.frame)
        (around flow position) caught) :
      Sends flow position instruction before
        ((receivers flow position instruction).map (⟨after, ·⟩) ++ caught)

/-- Deliver frames one after the other. -/
def deliverAll (sent : List Sent) (propagation : Propagation) :
    Query hierarchy Propagation :=
  sent.foldlM (fun propagation sent => deliver sent.frame propagation sent.target)
    propagation

theorem handlerFrame_eq_ok {before frame : Frame} {position : Nat} {caught : BinaryName}
    (answered : (handlerFrame before position caught : Query hierarchy Frame).eval =
      .ok frame) :
    before.clearStack.push (.object caught) none = .ok frame := by
  unfold handlerFrame at answered
  split at answered
  next pushed isPushed =>
    cases answered
    exact isPushed
  next => cases answered

/-- What reaches the handlers of ranges is a list of delivered frames. -/
theorem exists_caught {before : Frame} {position : Nat} {ranges : List ProtectedRange}
    {propagation next : Propagation}
    (answered : (ranges.foldlM (fun propagation range => do
        let frame ← handlerFrame before position range.caught
        deliver frame propagation range.handler) propagation :
      Query hierarchy Propagation).eval = .ok next) :
    ∃ caught : List Sent, List.Forall₂ (fun range sent => sent.target = range.handler ∧
        before.clearStack.push (.object range.caught) none = .ok sent.frame)
          ranges caught ∧
      (deliverAll caught propagation : Query hierarchy Propagation).eval = .ok next := by
  induction ranges generalizing propagation with
  | nil =>
      cases answered
      exact ⟨[], .nil, rfl⟩
  | cons range rest ih =>
      rw [List.foldlM_cons] at answered
      obtain ⟨middle, first, answered⟩ := eval_bind_eq_ok.mp answered
      obtain ⟨frame, isFrame, delivered⟩ := eval_bind_eq_ok.mp first
      obtain ⟨caught, handlers, rest⟩ := ih answered
      refine ⟨⟨frame, range.handler⟩ :: caught,
        .cons ⟨rfl, handlerFrame_eq_ok isFrame⟩ handlers, ?_⟩
      rw [deliverAll, List.foldlM_cons]
      exact eval_bind_eq_ok.mpr ⟨middle, delivered, rest⟩

theorem eval_execute (frame : Frame) (position : Nat) (instruction : Instruction) :
    (execute frame position instruction : Query hierarchy Frame).eval =
      frame.execute position instruction := by
  unfold execute
  cases frame.oddity? instruction with
  | none => exact eval_ofExcept _
  | some event => exact eval_ofExcept _

theorem deliverAll_append {first second : List Sent} {propagation next : Propagation} :
    (deliverAll (first ++ second) propagation : Query hierarchy Propagation).eval =
      .ok next ↔
      ∃ middle, (deliverAll first propagation : Query hierarchy Propagation).eval =
        .ok middle ∧
        (deliverAll second middle : Query hierarchy Propagation).eval = .ok next := by
  induction first generalizing propagation with
  | nil =>
      constructor
      · intro delivered
        exact ⟨propagation, rfl, delivered⟩
      · rintro ⟨_, ⟨⟩, delivered⟩
        exact delivered
  | cons sent rest ih =>
      simp only [deliverAll, List.cons_append, List.foldlM_cons, eval_bind_eq_ok] at ih ⊢
      constructor
      · rintro ⟨reached, first, delivered⟩
        obtain ⟨middle, toMiddle, fromMiddle⟩ := ih.mp delivered
        exact ⟨middle, ⟨reached, first, toMiddle⟩, fromMiddle⟩
      · rintro ⟨middle, ⟨reached, first, toMiddle⟩, fromMiddle⟩
        exact ⟨reached, first, ih.mpr ⟨middle, toMiddle, fromMiddle⟩⟩

/-- A condition that every delivery keeps is kept by several ones. -/
theorem deliverAll_induction {P : Propagation → Prop} {sent : List Sent}
    {propagation next : Propagation} (holds : P propagation)
    (kept : ∀ one ∈ sent, ∀ before after, P before →
      Delivers hierarchy one.frame one.target before after → P after)
    (delivered : (deliverAll sent propagation : Query hierarchy _).eval = .ok next) :
    P next := by
  refine Ensures.foldlM holds (fun one member before holds after answered => ?_)
    next delivered
  exact kept one member before after holds (deliver_eq_ok answered)

/-- A throw adds edges to the flow; nothing else changes it. -/
inductive Throws (hierarchy : Hierarchy) (instruction : Instruction) (position : Nat)
    (flow : Flow) :
    Flow → Prop where
  | quiet (isQuiet : instruction.isThrow = false) :
      Throws hierarchy instruction position flow flow
  | throws {next : Flow} {thrown : Option ValueType}
      (isThrow : instruction.isThrow = true)
      (added : (addThrow flow position thrown : Query hierarchy Flow).eval = .ok next) :
      Throws hierarchy instruction position flow next

/-- To carry the frame of an instruction on is to deliver what it sends. -/
theorem carry_eq_ok {propagation next : Propagation} {position : Nat}
    {instruction : Instruction} {before : Frame}
    (carried : (carry propagation position instruction before : Query hierarchy _).eval =
      .ok next) :
    ∃ flow sent, Throws hierarchy instruction position propagation.flow flow ∧
      Sends flow position instruction before sent ∧
      (deliverAll sent { propagation with flow := flow } : Query hierarchy _).eval =
        .ok next := by
  unfold carry at carried
  split at carried
  next isPseudo =>
    have isQuiet := (Instruction.goesOn_of_isPseudo isPseudo).noThrow
    refine ⟨propagation.flow, _, .quiet isQuiet, .pseudo isPseudo, ?_⟩
    rw [deliverAll, List.foldlM_map]
    exact carried
  next isReal =>
    obtain ⟨after, executed, carried⟩ := eval_bind_eq_ok.mp carried
    rw [eval_execute] at executed
    have onward {flow : Flow}
        (throws : Throws hierarchy instruction position propagation.flow flow) (ran : (do
          let propagation ← (receivers flow position instruction).foldlM (deliver after)
            { propagation with flow := flow }
          deliverToHandlers before position propagation :
            Query hierarchy _).eval = .ok next) :
        ∃ flow sent, Throws hierarchy instruction position propagation.flow flow ∧
          Sends flow position instruction before sent ∧
          (deliverAll sent { propagation with flow := flow } : Query hierarchy _).eval =
              .ok next := by
      obtain ⟨middle, toReceivers, toHandlers⟩ := eval_bind_eq_ok.mp ran
      have received : (deliverAll ((receivers flow position instruction).map (⟨after, ·⟩))
          { propagation with flow := flow } : Query hierarchy _).eval = .ok middle := by
        rw [deliverAll, List.foldlM_map]
        exact toReceivers
      have flow_eq : middle.flow = flow :=
        deliverAll_induction (P := fun reached => reached.flow = flow) rfl
          (fun _ _ _ _ same delivers => delivers.flow_eq.trans same) received
      obtain ⟨caught, handlers, delivered⟩ := exists_caught toHandlers
      rw [flow_eq] at handlers
      exact ⟨flow, _, throws, .real (by simpa using isReal) executed handlers,
        deliverAll_append.mpr ⟨middle, received, delivered⟩⟩
    dsimp only at carried
    split at carried
    next isThrow =>
      obtain ⟨flow, added, carried⟩ := eval_bind_eq_ok.mp carried
      exact onward (.throws isThrow added) carried
    next isQuiet => exact onward (.quiet (by simpa using isQuiet)) carried

/-! ## Steps and runs -/

/-- The propagation without its first pending position, over another flow. -/
def popped (propagation : Propagation) (position : Nat) (rest : List Nat) (flow : Flow) :
    Propagation :=
  { propagation with
    flow := flow
    pending := rest
    queued := propagation.queued.erase position
    iterations := propagation.iterations + 1 }

theorem tidy_popped {propagation : Propagation} {position : Nat} {rest : List Nat}
    (tidy : propagation.Tidy) (pending_eq : propagation.pending = position :: rest)
    (flow : Flow) :
    (popped propagation position rest flow).Tidy := by
  have nodup := tidy.nodup
  rw [pending_eq, List.nodup_cons] at nodup
  refine ⟨nodup.2, fun other => ?_⟩
  have queued := tidy.queued_iff other
  rw [pending_eq, List.mem_cons] at queued
  simp only [popped, IndexSet.mem_erase, queued]
  constructor
  · rintro ⟨same | member, isOther⟩
    · exact absurd same isOther
    · exact member
  · intro member
    exact ⟨.inr member, fun same => nodup.1 (same ▸ member)⟩

/-- What a step of the propagation does. -/
inductive Advances (hierarchy : Hierarchy) (instructions : Array Instruction)
    (propagation : Propagation) : Propagation → Prop where
  | idle {position : Nat} {rest : List Nat}
      (pending_eq : propagation.pending = position :: rest)
      (nothing : instructions[position]? = none ∨
        propagation.frames.at? position = none) :
      Advances hierarchy instructions propagation
        (popped propagation position rest propagation.flow)
  | carries {position : Nat} {rest : List Nat} {instruction : Instruction}
      {before : Frame} {flow : Flow} {sent : List Sent} {next : Propagation}
      (pending_eq : propagation.pending = position :: rest)
      (found : instructions[position]? = some instruction)
      (there : propagation.frames.at? position = some before)
      (throws : Throws hierarchy instruction position propagation.flow flow)
      (sends : Sends flow position instruction before sent)
      (delivered : (deliverAll sent (popped propagation position rest flow) :
        Query hierarchy _).eval = .ok next) :
      Advances hierarchy instructions propagation next

theorem advances_of_propagateStep {instructions : Array Instruction}
    {propagation next : Propagation}
    (stepped : Follows (propagateStep instructions : Propagation → Query hierarchy _)
      propagation next) :
    Advances hierarchy instructions propagation next := by
  unfold Follows propagateStep at stepped
  split at stepped
  next => cases stepped
  next position rest pending_eq =>
    dsimp only at stepped
    split at stepped
    next instruction before found there =>
      obtain ⟨carried, isCarried, isNext⟩ := eval_bind_eq_ok.mp stepped
      cases isNext
      obtain ⟨flow, sent, throws, sends, delivered⟩ := carry_eq_ok isCarried
      exact .carries pending_eq found there throws sends delivered
    next nothing =>
      cases stepped
      refine .idle pending_eq ?_
      cases found : instructions[position]? with
      | none => exact .inl rfl
      | some instruction =>
          cases there : propagation.frames.at? position with
          | none => exact .inr rfl
          | some before => exact absurd there (nothing instruction before found)

theorem pending_of_propagateStep {instructions : Array Instruction}
    {propagation result : Propagation}
    (stepped : (propagateStep instructions propagation : Query hierarchy _).eval =
      .ok (.inr result)) :
    propagation.pending = [] ∧ result = propagation := by
  unfold propagateStep at stepped
  split at stepped
  next isEmpty =>
    cases stepped
    exact ⟨isEmpty, rfl⟩
  next =>
    dsimp only at stepped
    split at stepped
    next =>
      obtain ⟨carried, _, impossible⟩ := eval_bind_eq_ok.mp stepped
      cases impossible
    next => cases stepped

/-- Frames are computed by steps from the frames that are given, until no position
is pending any more. -/
theorem computeFrames_eq_ok {body : Body} {flow completed : Flow} {frames : Frames}
    (nonempty : body.instructions.size ≠ 0)
    (computed : (computeFrames body flow : Query hierarchy _).eval =
      .ok (frames, completed)) :
    ∃ seeds last, body.seeds = .ok seeds ∧
      Relation.ReflTransGen (Advances hierarchy body.instructions)
      (.start flow seeds) last ∧
      last.pending = [] ∧ last.frames = frames ∧ last.flow = completed := by
  unfold computeFrames at computed
  split at computed
  next isEmpty => exact absurd (by simpa using isEmpty) nonempty
  next =>
    obtain ⟨seeds, isSeeds, computed⟩ := eval_bind_eq_ok.mp computed
    rw [eval_ofExcept] at isSeeds
    obtain ⟨settled, isSettled, computed⟩ := eval_bind_eq_ok.mp computed
    obtain ⟨_, _, computed⟩ := eval_bind_eq_ok.mp computed
    cases computed
    obtain ⟨last, run, atLast⟩ := iterate_eq_ok isSettled
    obtain ⟨isDone, rfl⟩ := pending_of_propagateStep atLast
    have advanced := Relation.ReflTransGen.mono
      (fun _ _ => advances_of_propagateStep) _ _ run
    exact ⟨seeds, settled, isSeeds, advanced, isDone, rfl, rfl⟩

theorem computeFrames_of_isEmpty {body : Body} {flow completed : Flow} {frames : Frames}
    (isEmpty : body.instructions.size = 0)
    (computed : (computeFrames body flow : Query hierarchy _).eval =
      .ok (frames, completed)) :
    frames = #[] ∧ completed = flow := by
  unfold computeFrames at computed
  rw [if_pos (by simpa using isEmpty)] at computed
  cases computed
  exact ⟨rfl, rfl⟩

/-- A condition that the given frames satisfy and that every step keeps holds when
the frames have been computed. -/
theorem computeFrames_induction {body : Body} {flow completed : Flow} {frames : Frames}
    {P : Propagation → Prop} (nonempty : body.instructions.size ≠ 0)
    (start : ∀ seeds, body.seeds = .ok seeds → P (.start flow seeds))
    (kept : ∀ before after, P before →
      Advances hierarchy body.instructions before after → P after)
    (computed : (computeFrames body flow : Query hierarchy _).eval =
      .ok (frames, completed)) :
    ∃ last, P last ∧ last.pending = [] ∧ last.frames = frames ∧
      last.flow = completed := by
  obtain ⟨seeds, last, isSeeds, run, isLast⟩ := computeFrames_eq_ok nonempty computed
  refine ⟨last, ?_, isLast⟩
  clear isLast
  induction run with
  | refl => exact start seeds isSeeds
  | tail _ advances ih => exact kept _ _ ih advances

/-! ## The flow along a run -/

/-- The later flow differs from the earlier one at throws only. -/
structure Extended (instructions : Array Instruction) (earlier later : Flow) : Prop where
  size_eq : later.size = earlier.size
  ranges_eq : later.ranges = earlier.ranges
  exits {position : Nat} (isExit : position ∈ earlier.exits) : position ∈ later.exits
  targets {position : Nat} {instruction : Instruction}
    (found : instructions[position]? = some instruction)
    (isQuiet : instruction.isThrow = false) :
    later.targetsOf position = earlier.targetsOf position

theorem Extended.refl {instructions : Array Instruction} (flow : Flow) :
    Extended instructions flow flow :=
  ⟨rfl, rfl, id, fun _ _ => rfl⟩

theorem Extended.trans {instructions : Array Instruction} {first second third : Flow}
    (left : Extended instructions first second)
    (right : Extended instructions second third) :
    Extended instructions first third :=
  ⟨right.size_eq.trans left.size_eq, right.ranges_eq.trans left.ranges_eq,
    right.exits ∘ left.exits,
    fun found isQuiet => (right.targets found isQuiet).trans (left.targets found isQuiet)⟩

theorem Throws.extended {instructions : Array Instruction} {instruction : Instruction}
    {position : Nat} {flow next : Flow}
    (found : instructions[position]? = some instruction)
    (throws : Throws hierarchy instruction position flow next) :
    Extended instructions flow next := by
  cases throws with
  | quiet => exact .refl flow
  | throws isThrow added =>
      have keeps := Flow.keeps_addThrow added
      refine ⟨keeps.size_eq, keeps.ranges_eq, keeps.exits, fun foundOther isQuiet => ?_⟩
      apply keeps.targets
      rintro rfl
      cases found.symm.trans foundOther
      cases isThrow.symm.trans isQuiet

theorem Extended.receivers {instructions : Array Instruction} {earlier later : Flow}
    {position : Nat} {instruction : Instruction}
    (extended : Extended instructions earlier later)
    (found : instructions[position]? = some instruction) :
    receivers later position instruction = receivers earlier position instruction := by
  cases isThrow : instruction.isThrow with
  | true =>
      -- A throw hands its frame on to nothing but handlers.
      cases instruction <;> first | rfl | cases isThrow
  | false =>
      rw [Query.receivers, Query.receivers, extended.targets found isThrow,
        extended.size_eq]

theorem Extended.sends {instructions : Array Instruction} {earlier later : Flow}
    {position : Nat} {instruction : Instruction} {frame : Frame} {sent : List Sent}
    (extended : Extended instructions earlier later)
    (found : instructions[position]? = some instruction)
    (sends : Sends earlier position instruction frame sent) :
    Sends later position instruction frame sent := by
  cases sends with
  | pseudo isPseudo =>
      rw [← extended.receivers found]
      exact .pseudo isPseudo
  | real isReal executed handlers =>
      rw [← extended.receivers found]
      refine .real isReal executed ?_
      rw [around, extended.ranges_eq]
      exact handlers

theorem Delivers.size_eq {frame : Frame} {position : Nat} {before after : Propagation}
    (delivers : Delivers hierarchy frame position before after) :
    after.frames.size = before.frames.size := by
  cases delivers with
  | first => rw [Propagation.frames_push, Frames.size_put]
  | joined =>
      split
      · rw [Propagation.frames_push, Frames.size_put]
      · rw [Frames.size_put]

/-- What stays the same while frames are delivered. -/
theorem eq_of_deliverAll {sent : List Sent} {before after : Propagation}
    (delivered : (deliverAll sent before : Query hierarchy _).eval = .ok after) :
    after.flow = before.flow ∧ after.frames.size = before.frames.size := by
  refine deliverAll_induction (P := fun reached =>
    reached.flow = before.flow ∧ reached.frames.size = before.frames.size)
      ⟨rfl, rfl⟩ ?_ delivered
  intro one _ reached next same delivers
  exact ⟨delivers.flow_eq.trans same.1, delivers.size_eq.trans same.2⟩

theorem Advances.extended {instructions : Array Instruction} {before after : Propagation}
    (advances : Advances hierarchy instructions before after) :
    Extended instructions before.flow after.flow ∧
      after.frames.size = before.frames.size := by
  cases advances with
  | idle => exact ⟨.refl _, rfl⟩
  | carries _ found _ throws _ delivered =>
      obtain ⟨flow_eq, size_eq⟩ := eq_of_deliverAll delivered
      exact ⟨flow_eq ▸ throws.extended found, size_eq⟩

/-! ## Where control leads -/

/-- Control leads from an instruction to a position, or an exception does. -/
inductive Leads (flow : Flow) (position : Nat) (instruction : Instruction) :
    Nat → Prop where
  | receiver {target : Nat} (isReceiver : target ∈ receivers flow position instruction) :
      Leads flow position instruction target
  | handler {range : ProtectedRange} (isReal : instruction.isPseudo = false)
      (isAround : range ∈ around flow position) :
      Leads flow position instruction range.handler

theorem Sends.leads {flow : Flow} {position : Nat} {instruction : Instruction}
    {before : Frame} {sent : List Sent}
    (sends : Sends flow position instruction before sent) {one : Sent}
    (member : one ∈ sent) : Leads flow position instruction one.target := by
  cases sends with
  | pseudo isPseudo =>
      obtain ⟨target, isReceiver, rfl⟩ := List.mem_map.mp member
      exact .receiver isReceiver
  | real isReal executed handlers =>
      rcases List.mem_append.mp member with member | member
      · obtain ⟨target, isReceiver, rfl⟩ := List.mem_map.mp member
        exact .receiver isReceiver
      · obtain ⟨range, isAround, toHandler, _⟩ := exists_of_mem_right handlers member
        rw [toHandler]
        exact .handler isReal isAround

/-- Whatever control leads to is sent a frame. -/
theorem Leads.sent {flow : Flow} {position target : Nat} {instruction : Instruction}
    {before : Frame} {sent : List Sent} (leads : Leads flow position instruction target)
    (sends : Sends flow position instruction before sent) :
    ∃ one ∈ sent, one.target = target := by
  cases leads with
  | receiver isReceiver =>
      cases sends with
      | pseudo => exact ⟨_, List.mem_map.mpr ⟨target, isReceiver, rfl⟩, rfl⟩
      | real =>
          exact ⟨_, List.mem_append_left _
            (List.mem_map.mpr ⟨target, isReceiver, rfl⟩), rfl⟩
  | handler isReal isAround =>
      cases sends with
      | pseudo isPseudo => cases isPseudo.symm.trans isReal
      | real _ _ handlers =>
          obtain ⟨one, isOne, toHandler, _⟩ := exists_of_mem_left handlers isAround
          exact ⟨one, List.mem_append_right _ isOne, toHandler⟩

theorem Leads.of_extended {instructions : Array Instruction} {earlier later : Flow}
    {position target : Nat} {instruction : Instruction}
    (extended : Extended instructions earlier later)
    (found : instructions[position]? = some instruction) :
    Leads later position instruction target ↔
    Leads earlier position instruction target := by
  have around_eq : around later position = around earlier position := by
    rw [around, around, extended.ranges_eq]
  constructor
  · rintro (isReceiver | ⟨isReal, isAround⟩)
    · exact .receiver (extended.receivers found ▸ isReceiver)
    · exact .handler isReal (around_eq ▸ isAround)
  · rintro (isReceiver | ⟨isReal, isAround⟩)
    · exact .receiver (extended.receivers found ▸ isReceiver)
    · exact .handler isReal (around_eq ▸ isAround)

/-! ## Conditions on frames -/

/-- A condition that the instructions of a method, handlers and joins keep. -/
structure Inductive (hierarchy : Hierarchy) (instructions : Array Instruction)
    (P : Frame → Prop) : Prop where
  execute {before after : Frame} {position : Nat} {instruction : Instruction}
    (found : instructions[position]? = some instruction) (holds : P before)
    (executed : before.execute position instruction = .ok after) : P after
  caught {before after : Frame} {caught : BinaryName} (holds : P before)
    (pushed : before.clearStack.push (.object caught) none = .ok after) : P after
  join {left right merged : Frame} {changed : Bool} (leftHolds : P left)
    (rightHolds : P right)
    (joins : JoinsFrames hierarchy left right merged changed) : P merged

/-- All frames satisfy the condition. -/
def AllFrames (P : Frame → Prop) (frames : Frames) : Prop :=
  ∀ position frame, frames.at? position = some frame → P frame

variable {P : Frame → Prop}

theorem AllFrames.put {frames : Frames} {position : Nat} {frame : Frame}
    (all : AllFrames P frames) (holds : P frame) :
    AllFrames P (frames.put position frame) := by
  intro other held there
  rw [Frames.at?_put] at there
  split at there
  next =>
    cases there
    exact holds
  next => exact all other held there

theorem Inductive.sends {instructions : Array Instruction} {flow : Flow} {position : Nat}
    {instruction : Instruction} {before : Frame} {sent : List Sent}
    (kept : Inductive hierarchy instructions P)
    (found : instructions[position]? = some instruction) (holds : P before)
    (sends : Sends flow position instruction before sent) :
    ∀ one ∈ sent, P one.frame := by
  intro one member
  cases sends with
  | pseudo isPseudo =>
      obtain ⟨target, _, rfl⟩ := List.mem_map.mp member
      exact holds
  | real isReal executed handlers =>
      rcases List.mem_append.mp member with member | member
      · obtain ⟨target, _, rfl⟩ := List.mem_map.mp member
        exact kept.execute found holds executed
      · obtain ⟨range, _, pushed⟩ := exists_of_mem_right handlers member
        exact kept.caught holds pushed.2

theorem AllFrames.delivers {frame : Frame} {position : Nat} {before after : Propagation}
    (join : ∀ {left right merged changed}, P left → P right →
      JoinsFrames hierarchy left right merged changed → P merged)
    (all : AllFrames P before.frames) (holds : P frame)
    (delivers : Delivers hierarchy frame position before after) :
    AllFrames P after.frames := by
  cases delivers with
  | first =>
      rw [Propagation.frames_push]
      exact all.put holds
  | joined inBounds there joins =>
      have holdsMerged := join (all _ _ there) holds joins
      split
      · rw [Propagation.frames_push]
        exact all.put holdsMerged
      · exact all.put holdsMerged

theorem Inductive.advances {instructions : Array Instruction} {before after : Propagation}
    (kept : Inductive hierarchy instructions P) (all : AllFrames P before.frames)
    (advances : Advances hierarchy instructions before after) :
    AllFrames P after.frames := by
  cases advances with
  | idle => exact all
  | carries _ found there _ sends delivered =>
      have sentHold := kept.sends found (all _ _ there) sends
      refine deliverAll_induction (P := fun reached => AllFrames P reached.frames)
        ?_ ?_ delivered
      · exact all
      · intro one member reached next reachedAll delivers
        exact reachedAll.delivers kept.join (sentHold one member) delivers

/-- A condition that the given frames satisfy holds for all computed frames, if
instructions, handlers and joins keep it. -/
theorem Inductive.allFrames_computeFrames {body : Body} {flow completed : Flow}
    {frames : Frames} (kept : Inductive hierarchy body.instructions P)
    (start : ∀ seeds, body.seeds = .ok seeds → AllFrames P seeds)
    (computed : (computeFrames body flow : Query hierarchy _).eval =
      .ok (frames, completed)) :
    AllFrames P frames := by
  by_cases nonempty : body.instructions.size = 0
  · obtain ⟨rfl, rfl⟩ := computeFrames_of_isEmpty nonempty computed
    exact nofun
  obtain ⟨last, all, _, rfl, _⟩ := computeFrames_induction
    (P := fun reached => AllFrames P reached.frames) nonempty start
    (fun _ _ all advances => kept.advances all advances) computed
  exact all

end Query

end LocalTable
