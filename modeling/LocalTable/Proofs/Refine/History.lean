import LocalTable.Proofs.Frames.Settling
import LocalTable.Proofs.Refine.Family
import LocalTable.Proofs.Refine.Halves
import LocalTable.Proofs.Refine.Spreading
import LocalTable.Proofs.Subtyping.Absorption
import LocalTable.Proofs.Trim.Losses

/-!
# Changes of a local over a whole refinement

The first change of a local at a position marks it as refined, and from then on each
step can only widen it.  So at most one of its changes is none.  That these are all its
changes is another matter: a value that grows wide takes the next slot along, which is
not among the changes.  In code without snapshots no value grows.
-/

namespace LocalTable

variable {hierarchy : Hierarchy}

/-- The new type is the join of both. -/
def Retyping.Widens (hierarchy : Hierarchy) (change : Retyping) : Prop :=
  (Query.join change.before change.after : Query hierarchy _).eval =
    .ok (some change.after)

instance (change : Retyping) : Decidable (change.Widens hierarchy) :=
  inferInstanceAs (Decidable (_ = _))

namespace Refinement

/-- A local that has not been refined has not changed, and all changes but the first one
widen. -/
def WidensLater (hierarchy : Hierarchy) (refinement : Refinement) : Prop :=
  ∀ position slot,
    (refinement.isRefined position slot = false →
      refinement.changesOf position slot = []) ∧
      ∀ change ∈ (refinement.changesOf position slot).dropLast, change.Widens hierarchy

theorem widensLater_start (frames : Frames) (maxLocals : Nat) :
    (start frames maxLocals).WidensLater hierarchy :=
  fun _ _ => ⟨fun _ => rfl, by simp [changesOf, start]⟩

variable {refinement changed : Refinement} {position slot : Nat}
  {before after : ValueType}

theorem changesOf_retype
    (retyped : refinement.retype position slot before after = .ok changed)
    (held : refinement.frames.localAt position slot = some before)
    (other otherSlot : Nat) :
    changed.changesOf other otherSlot =
      if position = other ∧ slot = otherSlot then
        ⟨position, slot, before, after⟩ :: refinement.changesOf other otherSlot
      else refinement.changesOf other otherSlot := by
  obtain ⟨frame, next, there, stored, rfl⟩ := retype_eq_ok retyped held
  simp [changesOf, List.filter_cons]

namespace WidensLater

variable (widens : refinement.WidensLater hierarchy)

include widens

theorem markRefined (position slot : Nat) :
    (refinement.markRefined position slot).WidensLater hierarchy := by
  intro other otherSlot
  obtain ⟨unchanged, widening⟩ := widens other otherSlot
  refine ⟨fun isOpen => unchanged ?_, widening⟩
  rw [isRefined_markRefined] at isOpen
  exact (Bool.or_eq_false_iff.mp isOpen).1

/-- A refined local may change for the first time, or be widened. -/
theorem retype (isRefined : refinement.isRefined position slot = true)
    (retyped : refinement.retype position slot before after = .ok changed)
    (held : refinement.frames.localAt position slot = some before)
    (grows : refinement.changesOf position slot = [] ∨
      Retyping.Widens hierarchy ⟨position, slot, before, after⟩) :
    changed.WidensLater hierarchy := by
  intro other otherSlot
  obtain ⟨unchanged, widening⟩ := widens other otherSlot
  rw [changesOf_retype retyped held, isRefined_retype retyped held]
  split
  next here =>
    obtain ⟨rfl, rfl⟩ := here
    refine ⟨fun isOpen => absurd isRefined (Bool.eq_false_iff.mp isOpen), ?_⟩
    cases earlier : refinement.changesOf position slot with
    | nil => simp
    | cons latest others =>
        have widened := grows.resolve_left (by simp [earlier])
        rw [earlier] at widening
        rw [List.dropLast_cons_cons]
        exact List.forall_mem_cons.mpr ⟨widened, widening⟩
  next => exact ⟨unchanged, widening⟩

end WidensLater

end Refinement

/-- Joining a type with another one widens it, or leaves it as it is. -/
theorem Query.widens_of_join {position slot : Nat} {type expected : ValueType}
    {joined : Option ValueType}
    (joins : (join type expected : Query hierarchy _).eval = .ok joined) :
    Retyping.Widens hierarchy ⟨position, slot, expected, joined.getD expected⟩ := by
  cases joined with
  | none => simp [Retyping.Widens, join]
  | some joined => exact eval_join_absorbs joins

/-- A step refines a local that has never changed, or widens it. -/
theorem Query.Spreads.widensLater {flow : Flow} {slot : Nat} {expected : ValueType}
    {before after : Spreading}
    (spreads : Spreads hierarchy flow slot expected before after)
    (inBounds : slot < before.refinement.refined.size)
    (widens : before.refinement.WidensLater hierarchy) :
    after.refinement.WidensLater hierarchy := by
  cases spreads with
  | passes => exact widens
  | @refines refinement _ position _ _ held isOpen retyped =>
      have isRefined : (refinement.markRefined position slot).isRefined position
          slot = true := by
        simp [Refinement.isRefined_markRefined, inBounds]
      exact (widens.markRefined position slot).retype isRefined retyped held
        (.inl ((widens position slot).1 isOpen))
  | widens held isRefined _ joins retyped =>
      exact widens.retype isRefined retyped held (.inr (widens_of_join joins))

theorem Refinement.WidensLater.indifferent (hierarchy : Hierarchy) (scene : Scene) :
    Refine.Indifferent hierarchy scene (fun _ => True) (WidensLater hierarchy) where
  missing _ := trivial
  retype _ _ _ _ :=
    Refine.retypeFrom_keeps fun _ _ spreads inBounds widens =>
      spreads.widensLater inBounds widens
  retypeCell {refinement} position distance type widens := by
    intro other slot
    simpa [isRefined, changesOf] using widens other slot

/-- All changes of a local but the first one widen, whatever the method is. -/
theorem Query.widensLater_of_refinement {body : Body} {flow : Flow} {frames : Frames}
    {refinement : Refinement}
    (refined : (Query.refinement body flow frames : Query hierarchy _).eval =
      .ok refinement) :
    refinement.WidensLater hierarchy := by
  have indifferent := Refinement.WidensLater.indifferent hierarchy
    (Scene.ofBody body flow)
  exact (refinement_guarantees indifferent.sustains (fun _ => id)
    (fun position instruction _ => indifferent.refineStore position instruction)
    (Refinement.widensLater_start _ _)).ensures _ refined

namespace Query

/-! ## All changes -/

/-- In a method in which no store leaves an upper half in its own slot, the changes of a
local with a value lead from its trimmed type to a refined type that is a value again,
and all of them but the first one widen.  This holds for code without snapshots.  In
other code no store may leave an upper half in the computed frames, and a value that is
compared or combined as if it were a boolean has to be narrow wherever stores are found
for it. -/
theorem locals_are_refined_once {body : Body} {branches completed flow : Flow}
    {computed trimmed : Frames} {liveness : Liveness} {refinement : Refinement}
    (trimming : Trimming hierarchy body branches completed flow computed liveness trimmed)
    (stores : ∀ store kind slot, body.instructions[store]? = some (.store kind slot) →
      trimmed.localAt (store + 1) slot ≠ some .top)
    (traceable : (∀ snapshot, .snapshot snapshot ∉ body.instructions) ∨
      (∀ store kind slot, body.instructions[store]? = some (.store kind slot) →
        computed.localAt (store + 1) slot ≠ some .top) ∧
      (Scene.ofBody body flow).TracesOperands computed)
    (refined : (Query.refinement body flow trimmed : Query hierarchy _).eval =
      .ok refinement)
    {position slot : Nat} {before : ValueType}
    (held : trimmed.localAt position slot = some before) (isValue : before ≠ .top) :
    ∃ after, refinement.frames.localAt position slot = some after ∧ after ≠ .top ∧
      Retyping.Lead before (refinement.changesOf position slot) after ∧
      ∀ change ∈ (refinement.changesOf position slot).dropLast,
        change.Widens hierarchy := by
  obtain ⟨setting, traces⟩ :
      (Scene.ofBody body flow).Setting body.code.maxLocals liveness computed trimmed ∧
        (Scene.ofBody body flow).TracesOperands computed := by
    rcases traceable with plain | ⟨computedStores, traces⟩
    · have trimmed_eq := trimming.trimmed_eq
      rw [trimming.flow_eq] at trimmed_eq ⊢
      exact ⟨setting_of_plain plain trimming.built trimming.computed trimmed_eq stores,
        tracesOperands_of_plain body plain trimming.built trimming.computed⟩
    · have shaped := (shaped_computeFrames trimming.computed).2
      refine ⟨.of_computed shaped trimming.trims fun store slot isStore => ?_, traces⟩
      obtain ⟨instruction, found, stored⟩ := Option.bind_eq_some_iff.mp isStore
      obtain ⟨kind, rfl⟩ := Instruction.exists_kind stored
      exact computedStores store kind slot found
  have refines := refinement_ensures setting traces _ refined
  obtain ⟨after, isAfter, leads⟩ := refines.records position slot before held isValue
  obtain ⟨_, alsoAfter, keeps⟩ := refines.frames.kept setting.trims held
  cases isAfter.symm.trans alsoAfter
  exact ⟨after, isAfter, fun isTop => isValue (keeps.top_iff.mp isTop), leads,
    (widensLater_of_refinement refined position slot).2⟩

section Observed

variable {α : Type} {body : Body} {look : Frames → Frames → Refinement → α} {seen : α}

/-- Compute the frames of a method, trim them and refine them, and look at what has come
out. -/
def observeRefined (body : Body) (look : Frames → Frames → Refinement → α) :
    Query hierarchy α := do
  let (flow, computed, trimmed) ← observe body fun flow computed _ trimmed =>
    (flow, computed, trimmed)
  return look computed trimmed (← refinement body flow trimmed)

theorem exists_refinement
    (observed : (observeRefined body look : Query hierarchy α).eval = .ok seen) :
    ∃ branches completed flow computed liveness trimmed refinement,
      Trimming hierarchy body branches completed flow computed liveness trimmed ∧
      (Query.refinement body flow trimmed : Query hierarchy _).eval = .ok refinement ∧
      look computed trimmed refinement = seen := by
  obtain ⟨⟨flow, computed, trimmed⟩, observed, refined⟩ := eval_bind_eq_ok.mp observed
  obtain ⟨refinement, refined, looked⟩ := eval_bind_eq_ok.mp refined
  obtain ⟨branches, completed, _, _, liveness, _, trimming, ⟨⟩⟩ :=
    exists_trimming observed
  exact ⟨branches, completed, flow, computed, liveness, trimmed, refinement,
    trimming, refined, Except.ok.inj looked⟩

end Observed

/-- A flag is looked at by a branch, and then combined with a number. -/
def maskingBody : Body :=
  .plain [] 2 2 #[.intConstant 1, .store .int 0, .load .int 0,
    .branchZero .eq ⟨0⟩, .label ⟨0⟩, .intConstant 5, .store .int 1, .load .int 0,
      .load .int 1, .logicInt .and, .pop, .returnVoid]

theorem observe_masking : (observeRefined maskingBody (fun _ trimmed refinement =>
      ([trimmed.localAt 2 0, trimmed.localAt 7 1, refinement.frames.localAt 2 0],
        refinement.changesOf 2 0)) : Query ⟨[]⟩ _).eval =
    .ok ([some .int, some .int, some .int],
      [⟨2, 0, .boolean, .int⟩, ⟨2, 0, .int, .boolean⟩]) := by
  decide +kernel

/-- The branch makes the flag a boolean, and the number widens it to an `int` again. -/
theorem masking_refines_once :
    ∃ branches completed flow computed liveness trimmed refinement,
      Trimming ⟨[]⟩ maskingBody branches completed flow computed liveness trimmed ∧
      (∀ store kind slot, maskingBody.instructions[store]? = some (.store kind slot) →
        trimmed.localAt (store + 1) slot ≠ some .top) ∧
      (∀ snapshot, .snapshot snapshot ∉ maskingBody.instructions) ∧
      (Query.refinement maskingBody flow trimmed : Query ⟨[]⟩ _).eval = .ok refinement ∧
      trimmed.localAt 2 0 = some .int ∧
      refinement.changesOf 2 0 = [⟨2, 0, .boolean, .int⟩, ⟨2, 0, .int, .boolean⟩] ∧
      ∃ after, refinement.frames.localAt 2 0 = some after ∧ after ≠ .top ∧
        Retyping.Lead .int (refinement.changesOf 2 0) after ∧
        ∀ change ∈ (refinement.changesOf 2 0).dropLast, change.Widens ⟨[]⟩ := by
  rcases exists_refinement observe_masking with
    ⟨branches, completed, flow, computed, liveness, trimmed, refinement, trimming,
      refined, seen⟩
  simp only [Prod.mk.injEq, List.cons.injEq] at seen
  obtain ⟨⟨isFlag, isNumber, _⟩, changes⟩ := seen
  have stores : ∀ store kind slot, maskingBody.instructions[store]? =
      some (.store kind slot) →
      trimmed.localAt (store + 1) slot ≠ some .top := by
    have sites : ∀ store kind slot, maskingBody.instructions[store]? =
        some (.store kind slot) →
        (store, slot) = (1, 0) ∨ (store, slot) = (6, 1) := forall_stores (by decide)
    intro store kind slot found
    rcases sites store kind slot found with site | site
    · cases site
      simp [isFlag]
    · cases site
      simp [isNumber]
  have plain : ∀ snapshot, .snapshot snapshot ∉ maskingBody.instructions := by
    simp [maskingBody, Body.plain, Body.instructions]
  exact ⟨branches, completed, flow, computed, liveness, trimmed, refinement,
    trimming, stores, plain, refined, isFlag, changes,
    locals_are_refined_once trimming stores (.inl plain) refined isFlag (by decide)⟩

/-- A flag that is held by one slot on two ways, behind another flag, is compared with a
number where a snapshot meets the halves of a `long`. -/
def swellingBody : Body :=
  .plain [.base .int, .base .long] 2 5 #[.intConstant 0, .store .int 4, .load .int 4,
    .branchZero .eq ⟨0⟩, .label ⟨0⟩, .pushNull, .instanceOf (.object .object),
    .store .int 3, .load .int 4, .pop, .load .int 0, .branchZero .eq ⟨1⟩, .intConstant 0,
    .store .int 3, .label ⟨1⟩, .load .int 0, .branchZero .eq ⟨2⟩, .load .int 3,
    .load .int 0,
    .snapshot (.full [.integer, .long, .integer, .integer] [.integer, .integer]),
    .label ⟨3⟩, .branchInt .eq ⟨4⟩, .label ⟨4⟩, .returnVoid, .label ⟨2⟩, .load .long 1,
    .goto ⟨3⟩]

theorem observe_swelling :
    (observeRefined swellingBody (fun computed trimmed refinement =>
      ([trimmed.localAt 9 4, refinement.frames.localAt 9 4], refinement.changesOf 9 4,
        [computed.localAt 2 4, computed.localAt 8 3, computed.localAt 14 3])) :
      Query (.pair .throwable .object) _).eval =
    .ok ([some .int, some .top], [⟨9, 4, .int, .boolean⟩],
      [some .int, some .boolean, some .int]) := by
  decide +kernel

/-- The second flag first becomes a boolean and then, without a trace, the upper half of
the first one, which has become a `long`. -/
theorem swelling_refines_twice :
    ∃ branches completed flow computed liveness trimmed refinement,
      (Hierarchy.pair .throwable .object).Acyclic ∧
      Trimming (.pair .throwable .object) swellingBody branches completed flow
        computed liveness trimmed ∧
      (∀ store kind slot, swellingBody.instructions[store]? = some (.store kind slot) →
        computed.localAt (store + 1) slot ≠ some .top) ∧
      (Query.refinement swellingBody flow trimmed :
        Query (.pair .throwable .object) _).eval =
        .ok refinement ∧
      trimmed.localAt 9 4 = some .int ∧ refinement.frames.localAt 9 4 = some .top ∧
      refinement.changesOf 9 4 = [⟨9, 4, .int, .boolean⟩] ∧
      ¬Retyping.Widens (.pair .throwable .object) ⟨9, 4, .int, .boolean⟩ ∧
      ¬Retyping.Widens (.pair .throwable .object) ⟨9, 4, .boolean, .top⟩ := by
  rcases exists_refinement observe_swelling with
    ⟨branches, completed, flow, computed, liveness, trimmed, refinement, trimming,
      refined, seen⟩
  simp only [Prod.mk.injEq, List.cons.injEq] at seen
  obtain ⟨⟨isInt, isTop, _⟩, changes, second, first, again, _⟩ := seen
  have sites : ∀ store kind slot, swellingBody.instructions[store]? =
      some (.store kind slot) →
      (store, slot) = (1, 4) ∨ (store, slot) = (7, 3) ∨ (store, slot) = (13, 3) :=
    forall_stores (by decide)
  refine ⟨branches, completed, flow, computed, liveness, trimmed, refinement,
    Hierarchy.acyclic_pair (by decide), trimming, fun store kind slot found =>
      ?_, refined, isInt,
    isTop, changes, by decide, by decide⟩
  rcases sites store kind slot found with site | site | site
  · cases site
    simp [second]
  · cases site
    simp [first]
  · cases site
    simp [again]

end Query

end LocalTable
