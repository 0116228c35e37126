import LocalTable.Proofs.Frames.Extent
import LocalTable.Proofs.Frames.Origin

/-!
# Families of refined types

In code without snapshots, refining keeps every local and every cell in the family of its
type, and no frame makes it fail.  There are two conditions on the trimmed frames.  No
store leaves an upper half in its own slot, and an `int` store leaves an `int` type there,
if anything: at the end such stores are made boolean without a look at what the slot
holds.  That matters for stores that are never reached, for behind them is what has come
from elsewhere.
-/

namespace LocalTable

variable {hierarchy : Hierarchy} {maxLocals : Nat}

/-! ## Slots above wide values -/

/-- Where the upper frame has a wide value, the lower one has a wide value as well. -/
def Frame.SubWide (lower upper : Frame) : Prop :=
  ∀ slot, upper.AboveWide slot → lower.AboveWide slot

/-- A store splits a wide value that its slot belonged to. -/
theorem Frame.Shaped.not_aboveWide {frame after : Frame} {slot : Nat} {type : ValueType}
    (shaped : frame.Shaped maxLocals) (stored : frame.setLocal slot type = .ok after) :
    ¬after.AboveWide slot := by
  rintro ⟨below, wide, rfl, held, isWide⟩
  rw [localAt_setLocal stored, if_neg (by omega), if_neg (by omega)] at held
  split at held
  next => cases held
  next isKept =>
    have isUpper := shaped.upper held isWide
    exact isKept ⟨rfl, splitsWide_iff.mpr ⟨below, wide, rfl, isUpper, held, isWide⟩⟩

namespace Query

theorem subWide_climbs (hierarchy : Hierarchy) : Climbs hierarchy Frame.SubWide where
  refl _ _ := id
  trans first second slot above := first slot (second slot above)
  join {left right merged changed} _ same joins := by
    -- A wide value has come from both sides.
    have both {below : Nat} {type : ValueType} (held : merged.localAt below = some type)
        (isWide : type.width = 2) :
        left.AboveWide (below + 1) ∧ right.AboveWide (below + 1) := by
      have answered := joins.locals same below
      rw [held] at answered
      obtain ⟨leftType, rightType, isLeft, isRight, ⟨_, rfl⟩ | ⟨leftSame, rightSame⟩⟩ :=
        sameFamily_of_mergeTypes answered
      · cases isWide
      · exact ⟨⟨below, leftType, rfl, isLeft, leftSame.alike.width_eq.trans isWide⟩,
          ⟨below, rightType, rfl, isRight, rightSame.alike.width_eq.trans isWide⟩⟩
    constructor
    · rintro slot ⟨below, type, rfl, held, isWide⟩
      exact (both held isWide).1
    · rintro slot ⟨below, type, rfl, held, isWide⟩
      exact (both held isWide).2

section Plain

variable {body : Body} {branches completed : Flow} {frames : Frames} {store slot : Nat}
  (plain : ∀ snapshot, .snapshot snapshot ∉ body.instructions)
  (built : Flow.ofCode body.code = .ok branches)
  (computed : (computeFrames body branches : Query hierarchy _).eval =
    .ok (frames, completed))

include plain built computed

/-- No wide value is right below the slot of a store that has been reached. -/
theorem not_aboveWide_of_store {kind : Kind} {before frame : Frame}
    (found : body.instructions[store]? = some (.store kind slot))
    (reached : frames.at? store = some before)
    (there : frames.at? (store + 1) = some frame) :
    ¬frame.AboveWide slot := by
  have fixpoint := (subWide_climbs hierarchy).fixpoint plain
    (Flow.entries_ofCode built).1 computed
  obtain ⟨ranges, resolved, recorded⟩ :=
    Flow.recorded_ofCode (Flow.unlimited_admits _) built
  have inBounds : store + 1 < body.instructions.size :=
    fixpoint.size_eq ▸ Frames.lt_size_of_at? there
  obtain ⟨sent, sends, received⟩ := (fixpoint.carried found reached).sends
  obtain ⟨after, executed⟩ : ∃ after, before.execute store (.store kind slot) =
      .ok after := by
    cases sends with
    | pseudo isPseudo => cases isPseudo
    | real _ executed => exact ⟨_, executed⟩
  have member := sent_of_passes resolved recorded fixpoint.extended found sends executed
    (fixpoint.computed _ _ reached).seeded_eq (.next rfl rfl rfl inBounds)
  obtain ⟨held, isHeld, below⟩ := received _ member (fixpoint.size_eq ▸ inBounds)
  cases there.symm.trans isHeld
  intro above
  obtain ⟨applied, effect, rfl⟩ := Frame.execute_eq_ok executed
  cases effect with
  | store lowers _ stored =>
      have shaped := (shaped_computeFrames computed).2 _ _ reached
      exact (shaped.of_locals (by rw [lowers.eq])).not_aboveWide stored (below slot above)
  | trade _ notStore => cases notStore

/-- The frame behind a store that has not been reached is left as it is by trimming. -/
theorem at?_trim_of_unreached (liveness : Liveness) {frame : Frame}
    (unreached : frames.at? store = none) (there : frames.at? (store + 1) = some frame) :
    (frames.trim (completed.protect body.instructions).closeBlocks liveness).at?
      (store + 1) = some frame := by
  have fixpoint := (subWide_climbs hierarchy).fixpoint plain
    (Flow.entries_ofCode built).1 computed
  rcases allLed_computeFrames plain computed (store + 1) (Option.isSome_iff_exists.mpr
    ⟨_, there⟩)
    with isZero | ⟨source, instruction, found, isFramed, leads⟩
  · cases isZero
  · have isElsewhere : source + 1 ≠ store + 1 := by
      rintro ⟨⟩
      rw [unreached] at isFramed
      cases isFramed
    have inBounds : store + 1 < body.instructions.size :=
      fixpoint.size_eq ▸ Frames.lt_size_of_at? there
    have leads := (Leads.of_extended fixpoint.extended found).mpr leads
    rw [Frames.at?_trim_of_entry
      (entry_of_leads built computed found leads inBounds isElsewhere).1]
    exact there

/-- If no store leaves an upper half in its slot in the trimmed frames, then none is
missing there either. -/
theorem setting_of_plain {liveness : Liveness} {trimmed : Frames}
    (trimmed_eq : trimmed =
      frames.trim (completed.protect body.instructions).closeBlocks liveness)
    (stores : ∀ store kind slot, body.instructions[store]? = some (.store kind slot) →
      trimmed.localAt (store + 1) slot ≠ some .top) :
    (Scene.ofBody body (completed.protect body.instructions).closeBlocks).Setting
      body.code.maxLocals liveness frames trimmed := by
  have shaped := (shaped_computeFrames computed).2
  have trims : frames.TrimmedTo liveness trimmed :=
    trimmed_eq ▸ .trim shaped (.refl _ frames)
  refine ⟨shaped, trims, fun {store slot middle} isStore isMiddle => ?_⟩
  obtain ⟨instruction, found, stored⟩ := Option.bind_eq_some_iff.mp isStore
  obtain ⟨kind, rfl⟩ := Instruction.exists_kind stored
  have notTop : middle.localAt slot ≠ some .top := fun isTop =>
    stores store kind slot found (Frames.localAt_eq_some.mpr ⟨middle, isMiddle, isTop⟩)
  refine ⟨notTop, fun above => ?_⟩
  obtain ⟨frame, there, frameTrims⟩ := trims.exists_original isMiddle
  cases reached : frames.at? store with
  | some before =>
      refine not_aboveWide_of_store plain built computed found reached there ?_
      obtain ⟨below, type, rfl, held, isWide⟩ := above
      rcases frameTrims.locals below with same | isEmpty
      · exact ⟨below, type, rfl, same.symm.trans held, isWide⟩
      · cases isEmpty.symm.trans held
  | none =>
      have unchanged := at?_trim_of_unreached plain built computed liveness reached there
      rw [← trimmed_eq] at unchanged
      cases isMiddle.symm.trans unchanged
      exact notTop (frameTrims.upper (shaped _ _ there) above).1

end Plain

end Query

/-! ## Families -/

/-- Cells and locals stay in the families of their types, and where there is none, there
is none afterwards.  Only upper halves of wide values may have come back. -/
structure Frame.StaysInFamily (before after : Frame) : Prop where
  size_eq : after.locals.size = before.locals.size
  cells : List.Forall₂ (fun (old new : Cell) => new.source = old.source ∧
    Option.Rel ValueType.SameFamily new.type old.type) before.stack after.stack
  locals (slot : Nat) :
    Option.Rel ValueType.SameFamily (after.localAt slot) (before.localAt slot) ∨
      after.localAt slot = some .top ∧ before.localAt slot = none ∧ before.AboveWide slot

/-- The same positions have frames, and these stay in their families. -/
structure Frames.StayInFamily (before after : Frames) : Prop where
  size_eq : after.size = before.size
  frames (position : Nat) :
    Option.Rel Frame.StaysInFamily (before.at? position) (after.at? position)

theorem Frame.RefinesTo.staysInFamily {live : IndexSet} {tracked : Prop}
    {computed trimmed refined : Frame} (trims : computed.TrimmedTo live trimmed)
    (refines : RefinesTo ValueType.SameFamily ValueType.SameFamily tracked computed
      trimmed refined)
    (isTracked : tracked) : trimmed.StaysInFamily refined := by
  refine ⟨refines.size_eq.trans trims.size_eq.symm, ?_, fun slot => ?_⟩
  · rw [trims.stack_eq]
    exact refines.cells.imp fun _ _ related => ⟨related.1, related.2 isTracked⟩
  · cases held : trimmed.localAt slot with
    | some type =>
        obtain ⟨_, isRefined, same⟩ := refines.kept held
        rw [isRefined]
        exact .inl (.some same)
    | none =>
        cases isRefined : refined.localAt slot with
        | none => exact .inl .none
        | some type =>
            rcases refines.known isRefined with ⟨_, alsoHeld, _⟩ | ⟨rfl, _, above⟩
            · cases held.symm.trans alsoHeld
            · exact .inr ⟨rfl, rfl, above⟩

theorem Frames.RefinesTo.stayInFamily {liveness : Liveness}
    {computed trimmed refined : Frames} (trims : computed.TrimmedTo liveness trimmed)
    (refines : RefinesTo ValueType.SameFamily ValueType.SameFamily (fun _ => True)
      computed trimmed refined) : trimmed.StayInFamily refined := by
  refine ⟨refines.size_eq.trans trims.size_eq.symm, fun position => ?_⟩
  cases isOld : computed.at? position with
  | none =>
      rw [trims.none_of_none isOld, refines.none_of_none isOld]
      exact .none
  | some old =>
      obtain ⟨middle, new, isMiddle, isNew, frameRefines⟩ := refines.frame isOld
      obtain ⟨_, alsoMiddle, frameTrims⟩ := trims.frame isOld
      cases isMiddle.symm.trans alsoMiddle
      rw [isMiddle, isNew]
      exact .some (frameRefines.staysInFamily frameTrims trivial)

namespace Query

/-- In code without snapshots, in which no store leaves an upper half in its own slot and
an `int` store leaves an `int` type there or nothing, refining the trimmed frames keeps
to the families of types and never fails on a frame. -/
theorem refining_keeps_families {body : Body} {branches completed flow : Flow}
    {frames trimmed : Frames} (plain : ∀ snapshot, .snapshot snapshot ∉ body.instructions)
    (built : Flow.ofCode body.code = .ok branches)
    (computed : (computeFrames body branches : Query hierarchy _).eval =
      .ok (frames, completed))
    (flow_eq : flow = (completed.protect body.instructions).closeBlocks)
    (trimmed_eq : trimmed = frames.trim flow
      (Liveness.compute body.instructions flow frames body.code.maxLocals).1)
    (stores : ∀ store kind slot, body.instructions[store]? = some (.store kind slot) →
      trimmed.localAt (store + 1) slot ≠ some .top)
    (intStores : ∀ store slot type, body.instructions[store]? = some (.store .int slot) →
      trimmed.localAt (store + 1) slot = some type → type.isIntLike = true) :
    (∀ refined, (refine body flow trimmed : Query hierarchy _).eval = .ok refined →
      trimmed.StayInFamily refined) ∧
    ∀ position fault,
      (refine body flow trimmed : Query hierarchy _).eval ≠
        .error (.frame position fault) := by
  subst flow_eq
  have setting := setting_of_plain plain built computed trimmed_eq stores
  have traces := tracesKin_of_plain ValueType.sameFamily_kinship body plain built computed
  have tracks :
      (Scene.ofBody body (completed.protect body.instructions).closeBlocks).Tracks
      ValueType.SameFamily (fun _ => True) frames :=
    ⟨fun _ => trivial, fun _ _ _ => traces _ _ _, fun _ _ => traces _⟩
  obtain ⟨ensures, failsOnly⟩ :
      (refine body _ trimmed : Query hierarchy _).Guarantees _ _ := by
    refine refine_guarantees setting ValueType.sameFamily_kinship tracks
      ValueType.sameFamily_kinship.lenient (fun _ _ => id) ?_
    intro store slot type before found _ held same
    have isIntLike := intStores store slot before found held
    exact .trans (.intLikes rfl isIntLike) same.symm
  exact ⟨fun refined isRefined => (ensures _ isRefined).stayInFamily setting.trims,
    fun position fault failed => failsOnly _ failed position fault rfl⟩

theorem forall_stores {instructions : Array Instruction} {P : Nat → Nat → Prop}
    (stored : ∀ store < instructions.size, ∀ slot,
      instructions[store]?.bind Instruction.stored? = some slot → P store slot) :
    ∀ store kind slot, instructions[store]? = some (.store kind slot) → P store slot := by
  intro store kind slot found
  refine stored store (Array.getElem?_eq_some_iff.mp found).1 slot ?_
  rw [found]
  rfl

/-- A flag is stored above a `long` and looked at by a branch. -/
def flaggingBody : Body :=
  .plain [.base .long] 1 3 #[.intConstant 1, .store .int 2, .load .int 2,
    .branchZero .eq ⟨0⟩, .label ⟨0⟩, .returnVoid]

def flaggingFlow : Flow :=
  ⟨.ofList [0, 4], .ofList [3, 5], #[[], [], [], [4], [], []],
    #[[], [], [], [], [3], []], []⟩

def flaggingFrame (flag : Option ValueType) (stack : List Cell) : Frame :=
  ⟨#[some .long, some .top, flag], stack, 1, 2, false⟩

/-- The frames, with the type of the flag. -/
def flaggingFrames (flag : ValueType) : Frames :=
  #[some (flaggingFrame none []), some (flaggingFrame none [.anonymous (some .int)]),
    some (flaggingFrame (some flag) []),
      some (flaggingFrame (some flag) [⟨some flag, some 2⟩]),
    some (flaggingFrame (some flag) []), some (flaggingFrame (some flag) [])]

/-- The flag becomes boolean, and so stays in its family. -/
theorem flagging_keeps_families :
    ∃ branches completed,
      (∀ snapshot, .snapshot snapshot ∉ flaggingBody.instructions) ∧
      Flow.ofCode flaggingBody.code = .ok branches ∧
      (computeFrames flaggingBody branches : Query ⟨[]⟩ _).eval =
        .ok (flaggingFrames .int, completed) ∧
      flaggingFlow = (completed.protect flaggingBody.instructions).closeBlocks ∧
      flaggingFrames .int = (flaggingFrames .int).trim flaggingFlow
        (Liveness.compute flaggingBody.instructions flaggingFlow
          (flaggingFrames .int) 3).1 ∧
      (∀ store kind slot, flaggingBody.instructions[store]? = some (.store kind slot) →
        (flaggingFrames .int).localAt (store + 1) slot = some .int) ∧
      (refine flaggingBody flaggingFlow (flaggingFrames .int) : Query ⟨[]⟩ _).eval =
        .ok (flaggingFrames .boolean) ∧
      (flaggingFrames .int).StayInFamily (flaggingFrames .boolean) := by
  have staged : (do
      let branches ← ofExcept (Flow.ofCode flaggingBody.code)
      let computed ← computeFrames flaggingBody branches
      return (computed.1, (computed.2.protect flaggingBody.instructions).closeBlocks) :
        Query ⟨[]⟩ _).eval = .ok (flaggingFrames .int, flaggingFlow) := by
    decide +kernel
  obtain ⟨branches, built, staged⟩ := eval_bind_eq_ok.mp staged
  obtain ⟨⟨frames, completed⟩, computed, staged⟩ := eval_bind_eq_ok.mp staged
  rw [eval_ofExcept] at built
  obtain ⟨rfl, flow_eq⟩ := Prod.mk.inj (Except.ok.inj staged)
  have plain : ∀ snapshot, .snapshot snapshot ∉ flaggingBody.instructions := by
    simp [flaggingBody, Body.plain, Body.instructions]
  have trimmed_eq : flaggingFrames .int = (flaggingFrames .int).trim flaggingFlow
      (Liveness.compute flaggingBody.instructions flaggingFlow
          (flaggingFrames .int) 3).1 := by
    decide +kernel
  have isRefined : (refine flaggingBody flaggingFlow (flaggingFrames .int) :
      Query ⟨[]⟩ _).eval = .ok (flaggingFrames .boolean) := by
    decide +kernel
  have stores : ∀ store kind slot, flaggingBody.instructions[store]? =
      some (.store kind slot) →
      (flaggingFrames .int).localAt (store + 1) slot = some .int :=
    forall_stores (by decide)
  refine ⟨branches, completed, plain, built, computed, flow_eq.symm, trimmed_eq,
    stores, isRefined,
    (refining_keeps_families plain built computed flow_eq.symm trimmed_eq ?_ ?_).1 _
      isRefined⟩
  · intro store kind slot found
    rw [stores store kind slot found]
    decide
  · intro store slot type found held
    cases (stores store .int slot found).symm.trans held
    rfl

/-- Between a branch and its target there is a store that is never reached. -/
def strayingBody : Body :=
  .plain [] 1 1 #[.pushNull, .store .ref 0, .pushNull, .branchNull .eq ⟨0⟩, .goto ⟨0⟩,
    .store .int 0, .label ⟨0⟩, .returnVoid]

def strayingFlow : Flow :=
  ⟨.ofList [0, 4, 6], .ofList [3, 4, 5, 7], #[[], [], [], [4, 6], [6], [6], [], []],
    #[[], [], [], [], [3], [], [3, 4, 5], []], []⟩

/-- The frames, with the type that the local has behind the stray store. -/
def strayingFrames (behind : ValueType) : Frames :=
  #[some ⟨#[none], [], 1, 0, false⟩,
    some ⟨#[none], [.anonymous (some .null)], 1, 0, false⟩,
      some ⟨#[some .null], [], 1, 0, false⟩,
    some ⟨#[some .null], [.anonymous (some .null)], 1, 0, false⟩,
    some ⟨#[some .null], [], 1, 0, false⟩, none, some ⟨#[some behind], [], 1, 0, false⟩,
    some ⟨#[some behind], [], 1, 0, false⟩]

/-- A store that is never reached makes a reference boolean. -/
theorem straying_leaves_family :
    ∃ branches completed,
      (∀ snapshot, .snapshot snapshot ∉ strayingBody.instructions) ∧
      Flow.ofCode strayingBody.code = .ok branches ∧
      (computeFrames strayingBody branches : Query ⟨[]⟩ _).eval =
        .ok (strayingFrames .null, completed) ∧
      strayingFlow = (completed.protect strayingBody.instructions).closeBlocks ∧
      strayingFrames .null = (strayingFrames .null).trim strayingFlow
        (Liveness.compute strayingBody.instructions strayingFlow
          (strayingFrames .null) 1).1 ∧
      (∀ store kind slot, strayingBody.instructions[store]? = some (.store kind slot) →
        (strayingFrames .null).localAt (store + 1) slot ≠ some .top) ∧
      (refine strayingBody strayingFlow (strayingFrames .null) : Query ⟨[]⟩ _).eval =
        .ok (strayingFrames .boolean) ∧
      ¬(strayingFrames .null).StayInFamily (strayingFrames .boolean) := by
  have staged : (do
      let branches ← ofExcept (Flow.ofCode strayingBody.code)
      let computed ← computeFrames strayingBody branches
      return (computed.1, (computed.2.protect strayingBody.instructions).closeBlocks) :
        Query ⟨[]⟩ _).eval = .ok (strayingFrames .null, strayingFlow) := by
    decide +kernel
  obtain ⟨branches, built, staged⟩ := eval_bind_eq_ok.mp staged
  obtain ⟨⟨frames, completed⟩, computed, staged⟩ := eval_bind_eq_ok.mp staged
  rw [eval_ofExcept] at built
  obtain ⟨rfl, flow_eq⟩ := Prod.mk.inj (Except.ok.inj staged)
  have plain : ∀ snapshot, .snapshot snapshot ∉ strayingBody.instructions := by
    simp [strayingBody, Body.plain, Body.instructions]
  have stores : ∀ store kind slot, strayingBody.instructions[store]? =
      some (.store kind slot) →
      (strayingFrames .null).localAt (store + 1) slot ≠ some .top :=
    forall_stores (by decide)
  refine ⟨branches, completed, plain, built, computed,
    flow_eq.symm, by decide +kernel, stores, by decide +kernel, fun stay => ?_⟩
  cases stay.frames 6 with
  | some frameStays =>
      rcases frameStays.locals 0 with same | ⟨isTop, _⟩
      · cases same with
        | some same =>
            rcases same with isEqual | ⟨isReference, _⟩ | ⟨_, isIntLike⟩
            · cases isEqual
            · cases isReference
            · cases isIntLike
      · cases isTop

end Query

end LocalTable
