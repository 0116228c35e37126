import LocalTable.Proofs.Frame.Height
import LocalTable.Proofs.Frames.Extent
import LocalTable.Proofs.Frames.Failures

/-!
# Frames settle

Each delivery that makes a position pending uses up some of what the position can still
become: it gets its first frame, or its frame is no longer just given, or its frame goes
up and loses height.  A step takes one position off the pending ones.  So the number of
pending positions and what all positions can still become fall together with every step,
and the steps come to an end after a number that depends on the method and the hierarchy
only.

This needs a hierarchy without cycles in which nothing is above the root class.  If the
root class has a supertype, each of the two is taken for a supertype of the other one, and
frames may change for ever.
-/

namespace LocalTable

namespace Hierarchy

/-- A hierarchy of two classes of which one is the superclass of the other one. -/
def pair (below above : BinaryName) : Hierarchy :=
  ⟨[⟨"artifact", [⟨below, some above, [], false⟩, ⟨above, none, [], false⟩]⟩]⟩

variable {below above : BinaryName}

theorem find?_pair (below above : BinaryName) :
    (pair below above).find? below = some ⟨below, some above, [], false⟩ := by
  simp [pair, find?, locate?, Tier.find?]

theorem extends_pair {subclass superclass : BinaryName}
    (isExtended : (pair below above).Extends subclass superclass) :
    subclass = below ∧ superclass = above := by
  obtain ⟨data, found, member⟩ := isExtended
  by_cases isBelow : below = subclass
  · subst isBelow
    rw [find?_pair] at found
    cases found
    exact ⟨rfl, List.mem_singleton.mp member⟩
  · by_cases isAbove : above = subclass
    · subst isAbove
      have onTop : (pair below above).find? above = some ⟨above, none, [], false⟩ := by
        simp [pair, find?, locate?, Tier.find?, isBelow]
      rw [onTop] at found
      cases found
      cases member
    · simp [pair, find?, locate?, Tier.find?, isBelow, isAbove] at found

theorem acyclic_pair (differ : below ≠ above) : (pair below above).Acyclic := by
  intro name cycle
  obtain ⟨next, first, rest⟩ := Relation.TransGen.head'_iff.mp cycle
  obtain ⟨rfl, rfl⟩ := extends_pair first
  rcases Relation.ReflTransGen.cases_head rest with same | ⟨_, second, _⟩
  · exact differ same.symm
  · exact differ (extends_pair second).1.symm

theorem rooted_pair (isOther : below ≠ .object) : (pair below above).Rooted := by
  intro data found
  refine List.eq_nil_iff_forall_not_mem.mpr fun superclass member => ?_
  exact isOther (extends_pair ⟨data, found, member⟩).1.symm

end Hierarchy

/-- The most steps in which the frames of a method settle. -/
def Body.stepBound (body : Body) (hierarchy : Hierarchy) : Nat :=
  body.instructions.size * (hierarchy.heightBound body.limits + 3)

namespace Query

variable {hierarchy : Hierarchy}

/-- Only a loop gives up; its steps do not. -/
theorem decides_propagateStep (instructions : Array Instruction)
    (propagation : Propagation) :
    (propagateStep instructions propagation : Query hierarchy _).Decides := by
  refine FailsOnly.decides (failsOnly_propagateStep (fun _ => Error.ne_unsettled) ?_ ?_)
  · exact fun _ _ _ _ => nofun
  · exact fun _ _ _ _ _ _ => nofun

/-! ## What frames can still become -/

/-- What a position can still become: first it gets a frame, a given frame is joined to
computed ones, and then its frame goes up. -/
noncomputable def weight (hierarchy : Hierarchy) (limits : Frame.Limits) :
    Option Frame → Nat
  | none => hierarchy.heightBound limits + 2
  | some frame =>
      if frame.seeded then hierarchy.heightBound limits + 1
      else hierarchy.frameHeight limits.depth frame

/-- The pending positions and what all positions can still become. -/
noncomputable def potential (hierarchy : Hierarchy) (limits : Frame.Limits)
    (propagation : Propagation) : Nat :=
  propagation.pending.length + ∑ position ∈ Finset.range propagation.frames.size,
    weight hierarchy limits (propagation.frames.at? position)

variable {limits : Frame.Limits}

theorem weight_some_le {frame : Frame} (fits : frame.Fits limits) :
    weight hierarchy limits (some frame) ≤ hierarchy.heightBound limits + 1 := by
  rw [weight]
  split
  · exact Nat.le_refl _
  · exact Nat.le_succ_of_le (Hierarchy.frameHeight_le fits)

theorem weight_le {frames : Frames} (all : AllFrames (Frame.Fits limits) frames)
    (position : Nat) :
    weight hierarchy limits (frames.at? position) ≤ hierarchy.heightBound limits + 2 := by
  cases there : frames.at? position with
  | none => exact Nat.le_refl _
  | some frame => exact Nat.le_succ_of_le (weight_some_le (all position frame there))

/-- A frame that weighs no more does not raise the potential, and one that weighs less
makes room for a pending position. -/
theorem potential_put {propagation : Propagation} {position : Nat} {frame : Frame}
    (inBounds : position < propagation.frames.size) :
    (weight hierarchy limits (some frame) ≤
        weight hierarchy limits (propagation.frames.at? position) →
      potential hierarchy limits
        { propagation with frames := propagation.frames.put position frame } ≤
        potential hierarchy limits propagation) ∧
    (weight hierarchy limits (some frame) <
        weight hierarchy limits (propagation.frames.at? position) →
      potential hierarchy limits
          ({ propagation with frames := propagation.frames.put position frame }.push
            position) ≤
        potential hierarchy limits propagation) := by
  have pointwise (notMore : weight hierarchy limits (some frame) ≤
      weight hierarchy limits (propagation.frames.at? position)) (other : Nat) :
      weight hierarchy limits ((propagation.frames.put position frame).at? other) ≤
        weight hierarchy limits (propagation.frames.at? other) := by
    rw [Frames.at?_put]
    split
    next same => exact same.1 ▸ notMore
    next => exact Nat.le_refl _
  constructor
  · intro notMore
    unfold potential
    rw [Frames.size_put]
    exact Nat.add_le_add_left (Finset.sum_le_sum fun other _ => pointwise notMore other) _
  · intro less
    have falls : ∑ other ∈ Finset.range propagation.frames.size,
          weight hierarchy limits ((propagation.frames.put position frame).at? other) <
        ∑ other ∈ Finset.range propagation.frames.size,
          weight hierarchy limits (propagation.frames.at? other) := by
      refine Finset.sum_lt_sum (fun other _ => pointwise (Nat.le_of_lt less) other)
        ⟨position, Finset.mem_range.mpr inBounds, ?_⟩
      rwa [Frames.at?_put, if_pos ⟨rfl, inBounds⟩]
    have oneMore : ({ propagation with
        frames := propagation.frames.put position frame }.push position).pending.length ≤
        propagation.pending.length + 1 := by
      unfold Propagation.push
      split
      · exact Nat.le_succ _
      · exact Nat.le_refl _
    unfold potential
    rw [Propagation.frames_push, Frames.size_put]
    dsimp only
    omega

/-- The frames keep to the limits of the method, and the steps so far leave room for as
many as the potential allows. -/
structure Bounded (hierarchy : Hierarchy) (body : Body)
    (propagation : Propagation) : Prop where
  fits : AllFrames (Frame.Fits body.limits) propagation.frames
  steps : propagation.iterations + potential hierarchy body.limits propagation ≤
    body.stepBound hierarchy

section Grounded

variable (acyclic : hierarchy.Acyclic) (rooted : hierarchy.Rooted) {body : Body}

include acyclic rooted

/-- A join that changes a frame leaves less to become, and any other one no more. -/
theorem weight_of_joins {left right merged : Frame} {changed : Bool}
    (leftFits : left.Fits body.limits) (rightFits : right.Fits body.limits)
    (joins : JoinsFrames hierarchy left right merged changed) :
    weight hierarchy body.limits (some merged) + changed.toNat ≤
      weight hierarchy body.limits (some left) := by
  have mergedFits := (fits_inductive hierarchy body).join leftFits rightFits joins
  have isComputed : weight hierarchy body.limits (some merged) =
      hierarchy.frameHeight body.limits.depth merged := by
    rw [weight, joins.seeded_eq, if_neg Bool.false_ne_true]
  rw [isComputed]
  cases seeded : left.seeded with
  | true =>
      have bound : hierarchy.frameHeight body.limits.depth merged ≤
          hierarchy.heightBound body.limits := Hierarchy.frameHeight_le mergedFits
      rw [weight, seeded, if_pos rfl]
      exact Nat.add_le_add bound (Bool.toNat_le changed)
  | false =>
      rw [weight, seeded, if_neg Bool.false_ne_true]
      cases changed with
      | true =>
          have same := leftFits.size_eq.trans rightFits.size_eq.symm
          exact Hierarchy.frameHeight_lt acyclic rooted
            (subFrame_of_merge seeded same joins).1 mergedFits (joins.differs rfl)
      | false => exact Nat.le_of_eq (by rw [joins.unchanged rfl]; rfl)

theorem Delivers.potential_le {frame : Frame} {position : Nat}
    {before after : Propagation} (all : AllFrames (Frame.Fits body.limits) before.frames)
    (fits : frame.Fits body.limits)
    (delivers : Delivers hierarchy frame position before after) :
    potential hierarchy body.limits after ≤ potential hierarchy body.limits before := by
  cases delivers with
  | first inBounds isFirst =>
      refine (potential_put inBounds).2 ?_
      rw [isFirst]
      exact Nat.lt_succ_of_le (weight_some_le fits)
  | @joined existing merged changed inBounds there joins =>
      have falls := weight_of_joins acyclic rooted (all _ _ there) fits joins
      rw [← there] at falls
      cases changed with
      | true => exact (potential_put inBounds).2 falls
      | false => exact (potential_put inBounds).1 falls

/-! ## Steps -/

omit acyclic rooted in
theorem Delivers.iterations_eq {frame : Frame} {position : Nat}
    {before after : Propagation}
    (delivers : Delivers hierarchy frame position before after) :
    after.iterations = before.iterations := by
  have pushed (propagation : Propagation) :
      (propagation.push position).iterations = propagation.iterations := by
    unfold Propagation.push
    split <;> rfl
  cases delivers with
  | first => exact pushed _
  | joined =>
      split
      · exact pushed _
      · rfl

/-- A step counts once, and lowers the potential. -/
theorem Advances.potential_lt {before after : Propagation}
    (all : AllFrames (Frame.Fits body.limits) before.frames)
    (advances : Advances hierarchy body.instructions before after) :
    after.iterations = before.iterations + 1 ∧
      potential hierarchy body.limits after < potential hierarchy body.limits before := by
  have falls {position : Nat} {rest : List Nat} (flow : Flow)
      (pending_eq : before.pending = position :: rest) :
      potential hierarchy body.limits (popped before position rest flow) <
        potential hierarchy body.limits before := by
    unfold potential
    rw [pending_eq]
    exact Nat.add_lt_add_right (Nat.lt_succ_self rest.length) _
  cases advances with
  | idle pending_eq => exact ⟨rfl, falls _ pending_eq⟩
  | @carries position rest instruction frame flow sent _ pending_eq found
      there throws sends delivered =>
      have fitting := fits_inductive hierarchy body
      have sentFit := fitting.sends found (all _ _ there) sends
      have kept : AllFrames (Frame.Fits body.limits) after.frames ∧
          after.iterations = before.iterations + 1 ∧
          potential hierarchy body.limits after ≤
            potential hierarchy body.limits (popped before position rest flow) := by
        refine deliverAll_induction (P := fun reached =>
          AllFrames (Frame.Fits body.limits) reached.frames ∧
            reached.iterations = before.iterations + 1 ∧
            potential hierarchy body.limits reached ≤
              potential hierarchy body.limits (popped before position rest flow))
                ?_ ?_ delivered
        · exact ⟨all, rfl, Nat.le_refl _⟩
        · rintro one member reached next ⟨reachedFit, counted, bound⟩ delivers
          have falls := delivers.potential_le acyclic rooted reachedFit
            (sentFit one member)
          exact ⟨reachedFit.delivers fitting.join (sentFit one member) delivers,
            delivers.iterations_eq.trans counted, Nat.le_trans falls bound⟩
      exact ⟨kept.2.1, Nat.lt_of_le_of_lt kept.2.2 (falls flow pending_eq)⟩

/-- Every step keeps the bound and uses up some of the potential. -/
theorem lowers_propagateStep (body : Body) :
    Lowers (propagateStep body.instructions : Propagation → Query hierarchy _)
      (Bounded hierarchy body) (potential hierarchy body.limits) := by
  intro before after bounded follows
  have advances := advances_of_propagateStep follows
  obtain ⟨counted, falls⟩ := advances.potential_lt acyclic rooted bounded.fits
  have steps := bounded.steps
  exact ⟨⟨(fits_inductive hierarchy body).advances bounded.fits advances, by omega⟩,
    falls⟩

end Grounded

/-! ## Bounds -/

theorem bounded_start {body : Body} {seeds : Frames} (seeded : body.seeds = .ok seeds)
    (flow : Flow) : Bounded hierarchy body (.start flow seeds) := by
  have size_eq := (Body.seeds_spec seeded).1
  have pending : (Propagation.start flow seeds).pending.length ≤
      body.instructions.size := by
    have nodup : (Propagation.start flow seeds).pending.Nodup :=
      (IndexSet.nodup_toList _).filter _
    have subset : (Propagation.start flow seeds).pending ⊆
        List.range body.instructions.size := by
      intro position member
      rw [List.mem_range, ← size_eq]
      simpa using (List.mem_filter.mp member).2
    simpa using (nodup.subperm subset).length_le
  have weights : ∑ position ∈ Finset.range seeds.size,
      weight hierarchy body.limits (seeds.at? position) ≤
        body.instructions.size * (hierarchy.heightBound body.limits + 2) := by
    rw [← size_eq, ← smul_eq_mul]
    have bound := Finset.sum_le_card_nsmul (Finset.range seeds.size)
      (fun position => weight hierarchy body.limits (seeds.at? position)) _
      fun position _ => weight_le (Body.fits_seeds seeded) position
    rwa [Finset.card_range] at bound
  refine ⟨Body.fits_seeds seeded, ?_⟩
  rw [Body.stepBound, Nat.mul_succ, Nat.add_comm (_ * _)]
  exact (Nat.zero_add _).le.trans (Nat.add_le_add pending weights)

/-- The bound on steps is a state of the frames of which there are enough. -/
theorem stepBound_lt (body : Body) (hierarchy : Hierarchy) :
    body.stepBound hierarchy + 1 < 2 ^ body.stateBits hierarchy := by
  have place_le : hierarchy.placeBound body.arrayDepth ≤ body.typeBound hierarchy := by
    unfold Hierarchy.placeBound Hierarchy.layer Body.typeBound
    exact Nat.add_le_add (Nat.mul_le_mul (Nat.le_succ _) (by omega)) (by decide)
  have height_le : hierarchy.heightBound body.limits ≤
      body.places * (body.typeBound hierarchy + body.places + 2) :=
    calc hierarchy.heightBound body.limits
        ≤ body.code.maxLocals * (body.typeBound hierarchy + body.places + 2) +
            body.code.maxStack * (body.typeBound hierarchy + body.places + 2) :=
          Nat.add_le_add (Nat.mul_le_mul_left _ (Nat.le_trans place_le (by omega)))
            (Nat.mul_le_mul_left _ (Nat.le_trans (Nat.succ_le_succ place_le) (by omega)))
      _ = (body.code.maxLocals + body.code.maxStack) *
            (body.typeBound hierarchy + body.places + 2) := (Nat.add_mul ..).symm
      _ ≤ body.places * (body.typeBound hierarchy + body.places + 2) :=
          Nat.mul_le_mul_right _ (by unfold Body.places; omega)
  have bits : body.stepBound hierarchy + 1 ≤ body.stateBits hierarchy := by
    unfold Body.stepBound Body.stateBits
    dsimp only
    rw [Nat.succ_mul]
    exact Nat.add_le_add (Nat.mul_le_mul_left _ (by omega)) (by omega)
  exact Nat.lt_of_le_of_lt bits Nat.lt_two_pow_self

/-- Carry frames on from the given ones for a number of steps. -/
def propagateFor (body : Body) (flow : Flow) (seeds : Frames) (count : Nat) :
    Query hierarchy (Propagation ⊕ Propagation) :=
  advance (propagateStep body.instructions) count (.start flow seeds)

section Grounded

variable (acyclic : hierarchy.Acyclic) (rooted : hierarchy.Rooted)
  {body : Body} {flow : Flow}

include acyclic rooted

/-- Steps beyond the bound come to a result, unless one of them fails. -/
theorem propagateFor_stepBound {seeds : Frames} {outcome : Propagation ⊕ Propagation}
    (seeded : body.seeds = .ok seeds)
    (ran : (propagateFor body flow seeds (body.stepBound hierarchy + 1) :
      Query hierarchy _).eval = .ok outcome) :
    ∃ settled, outcome = .inr settled ∧
      settled.iterations ≤ body.stepBound hierarchy := by
  have lowers := lowers_propagateStep acyclic rooted body
  have started : Bounded hierarchy body (.start flow seeds) := bounded_start seeded flow
  cases outcome with
  | inl reached =>
      have steps := started.steps
      have bound := (lowers.advance started ran).2
      omega
  | inr settled =>
      obtain ⟨last, bounded, stepped⟩ := lowers.exists_last started ran
      obtain ⟨_, rfl⟩ := pending_of_propagateStep stepped
      exact ⟨settled, rfl, Nat.le_trans (Nat.le_add_right ..) bounded.steps⟩

theorem decides_computeFrames (body : Body) (flow : Flow) :
    (computeFrames body flow : Query hierarchy _).Decides := by
  unfold computeFrames
  split
  · exact .pure _
  · have given : (ofExcept body.seeds : Query hierarchy Frames).Decides :=
      (failsOnly_seeds (fun _ => Error.ne_unsettled) body).decides
    refine .bind given fun seeds seeded => ?_
    rw [eval_ofExcept] at seeded
    have started : Bounded hierarchy body (.start flow seeds) := bounded_start seeded flow
    have enough : potential hierarchy body.limits (.start flow seeds) + 1 <
        1 * 2 ^ body.stateBits hierarchy := by
      have steps := started.steps
      have bound := stepBound_lt body hierarchy
      omega
    refine .bind ((lowers_propagateStep acyclic rooted body).decides_iterate
      (fun state _ => decides_propagateStep body.instructions state) started enough) ?_
    intro settled _
    exact .bind ⟨nofun⟩ fun _ _ => .pure _

end Grounded

/-- Where supertypes form no cycle and the root class has none, the frames of a method
settle, or an instruction fails, within a number of steps that depends on the method and
the hierarchy only. -/
theorem frames_settle {body : Body} {flow : Flow} (acyclic : hierarchy.Acyclic)
    (rooted : hierarchy.Rooted) :
    (∀ seeds, body.seeds = .ok seeds →
      (∃ settled, (propagateFor body flow seeds (body.stepBound hierarchy + 1) :
          Query hierarchy _).eval = .ok (.inr settled) ∧
        settled.iterations ≤ body.stepBound hierarchy) ∨
      ∃ error, error ≠ .unsettled ∧
        (propagateFor body flow seeds (body.stepBound hierarchy + 1) :
        Query hierarchy _).eval = .error error) ∧
    (computeFrames body flow : Query hierarchy _).eval ≠ .error .unsettled := by
  refine ⟨fun seeds seeded => ?_,
    (decides_computeFrames acyclic rooted body flow).ne_unsettled⟩
  cases ran : (propagateFor body flow seeds (body.stepBound hierarchy + 1) :
    Query hierarchy _).eval with
  | error error =>
      refine .inr ⟨error, ?_, rfl⟩
      rintro rfl
      exact ((lowers_propagateStep acyclic rooted body).decides_advance
        (fun state _ => decides_propagateStep body.instructions state)
        (bounded_start seeded flow)).ne_unsettled ran
  | ok outcome =>
      obtain ⟨settled, rfl, bound⟩ := propagateFor_stepBound acyclic rooted seeded ran
      exact .inl ⟨settled, rfl, bound⟩

/-! ## Two objects that take turns -/

/-- A method that swaps two objects over and over. -/
def swappingBody : Body :=
  .plain [] 2 0 #[.new .object, .new .throwable, .label ⟨0⟩, .swap, .goto ⟨0⟩]

/-- The flow of the method. -/
def swappingFlow : Flow :=
  ⟨⟨5⟩, ⟨16⟩, #[[], [], [], [], [2]], #[[], [], [4], [], []], []⟩

theorem swapping_frames_settle :
    (Hierarchy.pair .throwable .object).Acyclic ∧
    (Hierarchy.pair .throwable .object).Rooted ∧
      Flow.ofCode swappingBody.code = .ok swappingFlow ∧
      (∃ seeds, swappingBody.seeds = .ok seeds ∧
        ((∃ settled, (propagateFor swappingBody swappingFlow seeds
            (swappingBody.stepBound (.pair .throwable .object) + 1) :
              Query (.pair .throwable .object) _).eval = .ok (.inr settled) ∧
          settled.iterations ≤ swappingBody.stepBound (.pair .throwable .object)) ∨
        ∃ error, error ≠ .unsettled ∧ (propagateFor swappingBody swappingFlow seeds
          (swappingBody.stepBound (.pair .throwable .object) + 1) :
            Query (.pair .throwable .object) _).eval = .error error)) ∧
      (computeFrames swappingBody swappingFlow :
        Query (.pair .throwable .object) _).eval ≠ .error .unsettled := by
  have acyclic : (Hierarchy.pair .throwable .object).Acyclic :=
    Hierarchy.acyclic_pair (by decide)
  have rooted : (Hierarchy.pair .throwable .object).Rooted :=
    Hierarchy.rooted_pair (by decide)
  obtain ⟨settle, settled⟩ : _ ∧ (computeFrames swappingBody swappingFlow :
      Query (.pair .throwable .object) _).eval ≠ _ := frames_settle acyclic rooted
  exact ⟨acyclic, rooted, by decide, ⟨_, rfl, settle _ rfl⟩, settled⟩

/-- Each of two classes is found to be a supertype of the other one. -/
structure Inverts (hierarchy : Hierarchy) (left right : BinaryName) : Prop where
  forward : (commonSuperclass left right : Query hierarchy _).eval = .ok right
  backward : (commonSuperclass right left : Query hierarchy _).eval = .ok left
  differ : left ≠ right

/-- A superclass of the root class is taken for a subtype of it as well. -/
theorem inverts_pair {above : BinaryName} (notRoot : above ≠ .object) :
    Inverts (.pair .object above) above .object := by
  have onward : unseenSupertypes ⟨.object, some above, [], false⟩
      [.object] = [above] := by
    simp [unseenSupertypes, ClassData.supertypes, notRoot, List.eraseDups_cons]
  have isBelow : (isSubclass .object above : Query (.pair .object above) Bool).eval =
      .ok true := by
    rw [isSubclass, if_neg (by simp [notRoot, notRoot.symm]), reaches,
      if_neg notRoot.symm, eval_demand_of_found (Hierarchy.find?_pair .object above)]
    dsimp only
    rw [onward, List.reverse_singleton, List.singleton_append, reaches, if_pos rfl]
    rfl
  exact ⟨eval_bind_eq_ok.mpr ⟨true, rfl, rfl⟩,
    eval_bind_eq_ok.mpr ⟨true, isBelow, rfl⟩, notRoot⟩

/-- Two objects on the stack, the upper one first. -/
def stacked (upper lower : BinaryName) : Frame :=
  ⟨#[], [.anonymous (some (.object upper)), .anonymous (some (.object lower))], 2,
    0, false⟩

/-- The frames of the method on their way round its loop. -/
def swapping (atLabel atSwap atGoto : Frame) (pending steps : Nat) : Propagation :=
  ⟨swappingFlow, #[some (.empty 0 2),
    some ⟨#[], [.anonymous (some (.object .object))], 2, 0, false⟩, some atLabel,
      some atSwap, some atGoto], [pending], IndexSet.ofList [pending], steps⟩

theorem push_swapping (atLabel atSwap atGoto : Frame) (old new steps : Nat) :
    (popped (swapping atLabel atSwap atGoto old steps) old [] swappingFlow).push new =
      swapping atLabel atSwap atGoto new (steps + 1) := by
  have erased : (IndexSet.ofList [old]).erase old = .empty := by
    refine IndexSet.ext fun position => ?_
    rw [Bool.eq_iff_iff, ← IndexSet.mem_iff, ← IndexSet.mem_iff, IndexSet.mem_erase,
      IndexSet.mem_ofList, List.mem_singleton]
    exact iff_of_false (fun ⟨isOld, isOther⟩ => isOther isOld)
      (IndexSet.mem_empty position)
  unfold popped swapping
  dsimp only
  rw [erased, Propagation.push, if_neg (by simp)]
  rfl

namespace Inverts

variable {left right : BinaryName}

theorem symm (inverts : Inverts hierarchy left right) : Inverts hierarchy right left :=
  ⟨inverts.backward, inverts.forward, inverts.differ.symm⟩

theorem mergeTypes (inverts : Inverts hierarchy left right) :
    (Query.mergeTypes false (some (.object left)) (some (.object right)) :
      Query hierarchy _).eval = .ok (some (.object right)) := by
  have notSame : RefType.object left ≠ .object right :=
    fun same => inverts.differ (RefType.object.inj same)
  have common : (commonRefType (.object left) (.object right) : Query hierarchy _).eval =
      .ok (.object right) := by
    unfold commonRefType
    rw [if_neg notSame]
    exact eval_bind_eq_ok.mpr ⟨right, inverts.forward, rfl⟩
  unfold Query.mergeTypes ValueType.object
  dsimp only
  rw [if_neg (by simp), if_neg (by simp), join,
    if_neg fun same => notSame (ValueType.reference.inj same)]
  exact eval_bind_eq_ok.mpr ⟨_, common, rfl⟩

/-- A frame turns into the one that comes in. -/
theorem merge (inverts : Inverts hierarchy left right) (position : Nat) :
    (Query.merge (stacked left right) (stacked right left) position :
      Query hierarchy _).eval =
      .ok (stacked right left, true) := by
  have cells : (mergeCells false (stacked left right).stack.reverse
      (stacked right left).stack.reverse : Query hierarchy _).eval =
      .ok (stacked right left).stack.reverse := by
    refine eval_bind_eq_ok.mpr ⟨_, inverts.symm.mergeTypes, ?_⟩
    refine eval_bind_eq_ok.mpr ⟨[.anonymous (some (.object right))], ?_, ?_⟩
    · refine eval_bind_eq_ok.mpr ⟨_, inverts.mergeTypes, ?_⟩
      exact eval_bind_eq_ok.mpr ⟨[], rfl, by simp [Cell.anonymous]⟩
    · simp [Cell.anonymous, stacked]
  have changed : (stacked right left).stack ≠ (stacked left right).stack := by
    simp [stacked, Cell.anonymous, ValueType.object, inverts.differ.symm]
  have reported : (decide ((stacked right left).locals ≠ (stacked left right).locals) ||
      decide ((stacked right left).stack ≠ (stacked left right).stack)) = true := by
    rw [decide_eq_true changed, Bool.or_true]
  refine eval_bind_eq_ok.mpr ⟨[], rfl, eval_bind_eq_ok.mpr ⟨_, cells, ?_⟩⟩
  rw [List.reverse_reverse]
  exact congrArg (fun changed => Except.ok (stacked right left, changed)) reported

theorem deliver {propagation : Propagation} {position : Nat}
    (inverts : Inverts hierarchy left right)
    (inBounds : position < propagation.frames.size)
    (there : propagation.frames.at? position = some (stacked left right)) :
    (Query.deliver (stacked right left) propagation position : Query hierarchy _).eval =
      .ok ({ propagation with
        frames := propagation.frames.put position (stacked right left) }.push
          position) := by
  rw [Query.deliver, if_pos inBounds, there]
  exact eval_bind_eq_ok.mpr ⟨_, inverts.merge position, rfl⟩

end Inverts

/-- The frame at the pending position says the opposite of the one that comes after it. -/
inductive Turning (hierarchy : Hierarchy) : Propagation → Prop where
  | label {left right : BinaryName} (inverts : Inverts hierarchy left right)
      (steps : Nat) :
      Turning hierarchy
        (swapping (stacked left right) (stacked right left) (stacked left right) 2 steps)
  | swap {left right : BinaryName} (inverts : Inverts hierarchy left right)
      (steps : Nat) :
      Turning hierarchy
        (swapping (stacked left right) (stacked left right) (stacked left right) 3 steps)
  | goto {left right : BinaryName} (inverts : Inverts hierarchy left right)
      (steps : Nat) :
      Turning hierarchy
        (swapping (stacked left right) (stacked left right) (stacked right left) 4 steps)

/-- The next frame turns over, and is pending then. -/
theorem Turning.follows {before : Propagation} (turning : Turning hierarchy before) :
    ∃ after, Follows (propagateStep swappingBody.instructions : _ → Query hierarchy _)
      before after ∧ Turning hierarchy after := by
  cases turning with
  | @label left right inverts steps =>
      refine ⟨_, ?_, .swap inverts (steps + 1)⟩
      have sent :
          ([3].foldlM (deliver (stacked left right))
            (popped (swapping (stacked left right)
          (stacked right left) (stacked left right) 2 steps) 2 [] swappingFlow) :
            Query hierarchy _).eval =
              .ok (swapping (stacked left right) (stacked left right)
              (stacked left right) 3 (steps + 1)) := by
        rw [← push_swapping _ _ _ 2 3]
        exact eval_bind_eq_ok.mpr
          ⟨_, inverts.symm.deliver (Nat.lt_of_sub_eq_succ rfl) rfl, rfl⟩
      exact eval_bind_eq_ok.mpr ⟨_, sent, rfl⟩
  | @swap left right inverts steps =>
      refine ⟨_, ?_, .goto inverts (steps + 1)⟩
      have sent :
          ([4].foldlM (deliver (stacked right left))
            (popped (swapping (stacked left right)
          (stacked left right) (stacked left right) 3 steps) 3 [] swappingFlow) :
            Query hierarchy _).eval =
              .ok (swapping (stacked left right) (stacked left right)
              (stacked right left) 4 (steps + 1)) := by
        rw [← push_swapping _ _ _ 3 4]
        exact eval_bind_eq_ok.mpr
          ⟨_, inverts.deliver (Nat.lt_of_sub_eq_succ rfl) rfl, rfl⟩
      refine eval_bind_eq_ok.mpr
        ⟨_, eval_bind_eq_ok.mpr ⟨stacked right left, rfl, ?_⟩, rfl⟩
      refine eval_bind_eq_ok.mpr ⟨swappingFlow, rfl, ?_⟩
      exact eval_bind_eq_ok.mpr ⟨_, sent, rfl⟩
  | @goto left right inverts steps =>
      refine ⟨_, ?_, .label inverts.symm (steps + 1)⟩
      have sent :
          ([2].foldlM (deliver (stacked right left))
            (popped (swapping (stacked left right)
          (stacked left right) (stacked right left) 4 steps) 4 [] swappingFlow) :
            Query hierarchy _).eval =
              .ok (swapping (stacked right left) (stacked left right)
              (stacked right left) 2 (steps + 1)) := by
        rw [← push_swapping _ _ _ 4 2]
        exact eval_bind_eq_ok.mpr
          ⟨_, inverts.deliver (Nat.lt_of_sub_eq_succ rfl) rfl, rfl⟩
      refine eval_bind_eq_ok.mpr
        ⟨_, eval_bind_eq_ok.mpr ⟨stacked right left, rfl, ?_⟩, rfl⟩
      refine eval_bind_eq_ok.mpr ⟨swappingFlow, rfl, ?_⟩
      exact eval_bind_eq_ok.mpr ⟨_, sent, rfl⟩

/-- Without cycles, but with a superclass of the root class, the frames of a method may
change for ever. -/
theorem swapping_frames_never_settle :
    (Hierarchy.pair .object .throwable).Acyclic ∧
      Flow.ofCode swappingBody.code = .ok swappingFlow ∧
      (∃ seeds, swappingBody.seeds = .ok seeds ∧
        ∀ count, ∃ reached, (propagateFor swappingBody swappingFlow seeds count :
          Query (.pair .object .throwable) _).eval = .ok (.inl reached)) ∧
      (computeFrames swappingBody swappingFlow :
        Query (.pair .object .throwable) _).eval = .error .unsettled := by
  have inverts : Inverts (.pair .object .throwable) .throwable .object :=
    inverts_pair (by decide)
  -- After four steps every position of the loop has a frame, and no frames have met.
  have started : (advance (propagateStep swappingBody.instructions) 4
      (.start swappingFlow #[some (.empty 0 2), none, none, none, none]) :
        Query (.pair .object .throwable) _).eval =
      .ok (.inl (swapping (stacked .throwable .object) (stacked .throwable .object)
        (stacked .object .throwable) 4 4)) := rfl
  have endless := endless_of_onward (fun _ => Turning.follows) started (.goto inverts 4)
  refine ⟨Hierarchy.acyclic_pair (by decide), by decide, ⟨_, rfl, endless⟩, ?_⟩
  exact (eval_bind_of_ok rfl).trans
    ((eval_bind _ _).trans (congrArg (· >>= _) endless.iterate))

end Query

end LocalTable
