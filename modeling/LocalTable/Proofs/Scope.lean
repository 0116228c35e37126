import Mathlib.Data.List.TakeWhile
import Mathlib.Order.Bounds.Basic
import LocalTable.Proofs.Flow.Blocks
import LocalTable.Scope

/-!
# Covers of variables by scopes

The scopes of a method form a cover: at every position of a block, each slot that
holds a value belongs to exactly one scope, whose type fits the value.  The scopes
within blocks form a cover, and putting one scope for two keeps it.
-/

namespace LocalTable.Scope

variable {flow : Flow} {frames : Frames} {maxLocals : Nat}

/-- Is this the scope of the variable in a slot at a position? -/
def holds (slot position : Nat) (scope : Scope) : Bool :=
  scope.slot = slot && scope.existsAt position

@[simp] theorem holds_iff {slot position : Nat} {scope : Scope} :
    scope.holds slot position = true ↔ scope.slot = slot ∧
    position ∈ scope.positions := by
  simp [holds, existsAt, IndexSet.mem_iff]

theorem typeAt_eq_some {position slot : Nat} {type : ValueType} :
    typeAt frames position slot = some type ↔
      frames.localAt position slot = some type ∧ type ≠ .top := by
  simp [typeAt, Option.filter_eq_some_iff]

/-- At most one element of a list satisfies a condition if no two of them do. -/
theorem countP_le_one {α : Type} {P : α → Bool} {items : List α} :
    items.countP P ≤ 1 ↔ items.Pairwise fun left right =>
      ¬(P left = true ∧ P right = true) := by
  induction items with
  | nil => simp
  | cons item rest ih =>
      rw [List.pairwise_cons, ← ih]
      by_cases holds : P item = true
      · rw [List.countP_cons_of_pos holds]
        constructor
        · intro bound
          have none : rest.countP P = 0 := Nat.le_zero.mp (Nat.le_of_succ_le_succ bound)
          exact ⟨fun other member both => List.countP_eq_zero.mp none other member both.2,
            none ▸ Nat.zero_le 1⟩
        · rintro ⟨others, _⟩
          have none : rest.countP P = 0 :=
            List.countP_eq_zero.mpr fun other member also =>
              others other member ⟨holds, also⟩
          rw [none]
      · rw [List.countP_cons_of_neg holds]
        exact ⟨fun bound => ⟨fun _ _ both => holds both.1, bound⟩, And.right⟩

/-! ## Positions of blocks -/

theorem mem_blockFrom {size entry position : Nat} :
    position ∈ blockFrom flow size entry ↔ position < size ∧
    flow.InBlockOf entry position := by
  fun_induction blockFrom flow size entry with
  | case1 entry inBounds isExit =>
      rw [List.mem_singleton]
      constructor
      · rintro rfl
        exact ⟨inBounds, Nat.le_refl _, fun between after before =>
          absurd before (Nat.not_lt.mpr after)⟩
      · rintro ⟨_, after, passes⟩
        by_contra different
        exact passes entry (Nat.le_refl _)
          (Nat.lt_of_le_of_ne after (Ne.symm different)) isExit
  | case2 entry inBounds goesOn ih =>
      rw [List.mem_cons, ih]
      constructor
      · rintro (rfl | ⟨below, after, passes⟩)
        · exact ⟨inBounds, Nat.le_refl _, fun between after before =>
            absurd before (Nat.not_lt.mpr after)⟩
        · refine ⟨below, Nat.le_of_succ_le after, fun between from_entry before => ?_⟩
          rcases Nat.eq_or_lt_of_le from_entry with rfl | later
          · exact goesOn
          · exact passes between later before
      · rintro ⟨below, after, passes⟩
        rcases Nat.eq_or_lt_of_le after with rfl | later
        · exact .inl rfl
        · exact .inr ⟨below, later, fun between from_next =>
            passes between (Nat.le_of_succ_le from_next)⟩
  | case3 entry outside =>
      constructor
      · intro impossible
        cases impossible
      · rintro ⟨below, after, _⟩
        exact absurd (Nat.lt_of_le_of_lt after below) outside

theorem pairwise_blockFrom (flow : Flow) (size entry : Nat) :
    (blockFrom flow size entry).Pairwise (· < ·) := by
  fun_induction blockFrom flow size entry with
  | case1 => exact List.pairwise_singleton ..
  | case2 entry inBounds goesOn ih =>
      exact List.pairwise_cons.mpr
        ⟨fun position member => (mem_blockFrom.mp member).2.1, ih⟩
  | case3 => exact .nil

/-! ## Scopes within blocks -/

theorem typeAt_of_mem_takeWhile {positions : List Nat} {position slot : Nat}
    {held : Option ValueType}
    (inRun : position ∈ positions.takeWhile fun next => typeAt frames next slot = held) :
    position ∈ positions ∧ typeAt frames position slot = held :=
  ⟨(List.takeWhile_sublist _).mem inRun, by simpa using List.mem_takeWhile_imp inRun⟩

theorem opened_eq_some {previous : Option Nat} {position slot : Nat}
    {following : List Nat} {scope : Scope} :
    opened frames previous position following slot = some scope ↔
      ∃ type, typeAt frames position slot = some type ∧
        previous.bind (typeAt frames · slot) ≠ some type ∧
        scope = ofRun slot type position
          (following.takeWhile fun next => typeAt frames next slot = some type) := by
  unfold opened
  constructor
  · intro opens
    obtain ⟨type, hasType, opens⟩ := Option.bind_eq_some_iff.mp opens
    split at opens
    · cases opens
    next differs => exact ⟨type, hasType, differs, (Option.some.inj opens).symm⟩
  · rintro ⟨type, hasType, differs, rfl⟩
    simp [hasType, differs]

/-- No scope begins where the slot holds nothing or what it held before. -/
theorem opened_eq_none {previous : Option Nat} {position slot : Nat}
    {following : List Nat}
    (same : ∀ type, typeAt frames position slot = some type →
      previous.bind (typeAt frames · slot) = some type) :
    opened frames previous position following slot = none := by
  rw [← Option.not_isSome_iff_eq_none, Option.isSome_iff_exists]
  rintro ⟨scope, opens⟩
  obtain ⟨type, hasType, differs, _⟩ := opened_eq_some.mp opens
  exact differs (same type hasType)

@[simp] theorem mem_positions_ofRun {slot first position : Nat} {type : ValueType}
    {rest : List Nat} :
    position ∈ (ofRun slot type first rest).positions ↔ position ∈ first :: rest :=
  IndexSet.mem_ofList

theorem slot_of_opened {previous : Option Nat} {position slot : Nat}
    {following : List Nat} {scope : Scope}
    (opens : opened frames previous position following slot = some scope) :
    scope.slot = slot := by
  obtain ⟨type, _, _, rfl⟩ := opened_eq_some.mp opens
  rfl

/-- The frames have no more local slots than the method. -/
def SlotsBelow (frames : Frames) (maxLocals : Nat) : Prop :=
  ∀ position slot, (typeAt frames position slot).isSome = true → slot < maxLocals

/-- Of the scopes that begin at a position, only the one of the slot itself holds
the variable in the slot. -/
theorem countP_opened {previous : Option Nat} {first slot position : Nat}
    {following : List Nat} (below : SlotsBelow frames maxLocals) :
    ((List.range maxLocals).filterMap (opened frames previous first following)).countP
        (holds slot position) =
      (opened frames previous first following slot).toList.countP
        (holds slot position) := by
  have upTo (count : Nat) :
      ((List.range count).filterMap (opened frames previous first following)).countP
          (holds slot position) =
        if slot < count then
          (opened frames previous first following slot).toList.countP
            (holds slot position)
        else 0 := by
    induction count with
    | zero => rfl
    | succ count ih =>
        rw [List.range_succ, List.filterMap_append, List.countP_append, ih,
          List.filterMap_cons, List.filterMap_nil]
        by_cases same : count = slot
        · subst same
          cases opened frames previous first following count <;> simp
        · have none : ∀ scope, opened frames previous first following count = some scope →
              scope.holds slot position = false := by
            intro scope opens
            simp [holds, slot_of_opened opens, same]
          have bound : slot < count + 1 ↔ slot < count := by omega
          cases opens : opened frames previous first following count with
          | none => simp [bound]
          | some scope => simp [bound, none scope opens]
  rw [upTo]
  split
  · rfl
  next outside =>
    have untyped : typeAt frames first slot = none := by
      rw [← Option.not_isSome_iff_eq_none]
      exact fun hasType => outside (below first slot hasType)
    rw [opened_eq_none fun type hasType => by cases untyped.symm.trans hasType]
    rfl

/-- Exactly one of the scopes that begin in a block holds the variable in a slot
at a position, unless the slot still holds what it held before the block. -/
theorem countP_inBlock {slot position : Nat} {previous : Option Nat}
    {positions : List Nat} (below : SlotsBelow frames maxLocals)
    (nodup : positions.Nodup) :
    (inBlock frames maxLocals previous positions).countP (holds slot position) =
      if position ∈ positions ∧ (typeAt frames position slot).isSome = true ∧
          position ∉ positions.takeWhile
            (fun next => typeAt frames next slot = previous.bind (typeAt frames · slot))
      then 1 else 0 := by
  induction positions generalizing previous with
  | nil => simp [inBlock]
  | cons first following ih =>
      obtain ⟨isNew, nodup⟩ := List.nodup_cons.mp nodup
      rw [inBlock, List.countP_append, countP_opened below, ih nodup, Option.bind_some,
        List.takeWhile_cons]
      by_cases same : typeAt frames first slot = previous.bind (typeAt frames · slot)
      · rw [opened_eq_none fun type hasType => same.symm.trans hasType]
        simp only [same, decide_true, if_true, Option.toList_none,
          List.countP_nil, Nat.zero_add]
        refine if_congr ?_ rfl rfl
        simp only [List.mem_cons, not_or]
        constructor
        · rintro ⟨member, hasType, outside⟩
          exact ⟨.inr member, hasType, fun isFirst => isNew (isFirst ▸ member), outside⟩
        · rintro ⟨member, hasType, notFirst, outside⟩
          exact ⟨member.resolve_left notFirst, hasType, outside⟩
      · simp only [same, decide_false, Bool.false_eq_true, if_false, List.not_mem_nil,
          not_false_iff, and_true, List.mem_cons]
        cases hasType : typeAt frames first slot with
        | none =>
            rw [opened_eq_none fun type typed => by cases hasType.symm.trans typed]
            simp only [Option.toList_none, List.countP_nil, Nat.zero_add]
            refine if_congr ?_ rfl rfl
            constructor
            · rintro ⟨member, typed, _⟩
              exact ⟨.inr member, typed⟩
            · rintro ⟨rfl | member, typed⟩
              · rw [hasType] at typed
                cases typed
              · refine ⟨member, typed, fun inRun => ?_⟩
                rw [(typeAt_of_mem_takeWhile inRun).2] at typed
                cases typed
        | some type =>
            have opens : opened frames previous first following slot = some
                (ofRun slot type first
                  (following.takeWhile fun next => typeAt frames next slot =
                      some type)) :=
              opened_eq_some.mpr ⟨type, hasType, fun before =>
                same (hasType.trans before.symm), rfl⟩
            rw [opens]
            have typed {next : Nat} :=
              @typeAt_of_mem_takeWhile frames following next slot (some type)
            simp only [Option.toList_some, List.countP_singleton, holds_iff,
              mem_positions_ofRun, List.mem_cons]
            grind [ofRun]

/-- A value of the first type can be in a variable of the second type. -/
def Fits (held declared : ValueType) : Prop :=
  held = declared ∨ held = .null ∧ declared.isReference = true

/-- The scope keeps to the blocks and to the types of its slot, and its ends are
the first and the last of its positions. -/
structure Sound (flow : Flow) (frames : Frames) (scope : Scope) : Prop where
  isLeast : IsLeast {position | position ∈ scope.positions} scope.first
  isGreatest : IsGreatest {position | position ∈ scope.positions} scope.last
  inBlock {position : Nat} (member : position ∈ scope.positions) : flow.InBlock position
  typed {position : Nat} (member : position ∈ scope.positions) :
    ∃ type, typeAt frames position scope.slot = some type ∧ Fits type scope.type

theorem le_getLastD {first position : Nat} {rest : List Nat}
    (ascending : (first :: rest).Pairwise (· < ·)) (member : position ∈ first :: rest) :
    position ≤ rest.getLastD first := by
  induction rest generalizing first position with
  | nil => exact Nat.le_of_eq (List.mem_singleton.mp member)
  | cons next rest ih =>
      have ⟨later, rest_ascending⟩ := List.pairwise_cons.mp ascending
      rw [List.getLastD_cons]
      rcases List.mem_cons.mp member with rfl | member
      · have isNext := List.mem_cons_self (a := next) (l := rest)
        exact Nat.le_trans (Nat.le_of_lt (later next isNext)) (ih rest_ascending isNext)
      · exact ih rest_ascending member

theorem ends_ofRun {slot first : Nat} {type : ValueType} {rest : List Nat}
    (ascending : (first :: rest).Pairwise (· < ·)) :
    IsLeast {position | position ∈ (ofRun slot type first rest).positions} first ∧
      IsGreatest {position | position ∈ (ofRun slot type first rest).positions}
        (ofRun slot type first rest).last := by
  refine ⟨⟨mem_positions_ofRun.mpr (List.mem_cons_self ..), ?_⟩,
    mem_positions_ofRun.mpr List.getLastD_mem_cons, ?_⟩
  · intro position member
    rcases List.mem_cons.mp (mem_positions_ofRun.mp member) with rfl | member
    · exact Nat.le_refl _
    · exact Nat.le_of_lt ((List.pairwise_cons.mp ascending).1 position member)
  · intro position member
    exact le_getLastD ascending (mem_positions_ofRun.mp member)

/-- A scope that begins in a block is a run of its positions at which the slot
holds one type. -/
theorem exists_run_of_mem_inBlock {previous : Option Nat} {positions : List Nat}
    {scope : Scope} (member : scope ∈ inBlock frames maxLocals previous positions) :
    ∃ slot type first rest, scope = ofRun slot type first rest ∧
      (first :: rest).Sublist positions ∧
      ∀ position ∈ first :: rest, typeAt frames position slot = some type := by
  induction positions generalizing previous with
  | nil => cases member
  | cons first following ih =>
      rcases List.mem_append.mp member with begins | member
      · obtain ⟨slot, _, opens⟩ := List.mem_filterMap.mp begins
        obtain ⟨type, hasType, _, rfl⟩ := opened_eq_some.mp opens
        refine ⟨slot, type, first, _, rfl, (List.takeWhile_sublist _).cons_cons first, ?_⟩
        intro position member
        rcases List.mem_cons.mp member with rfl | member
        · exact hasType
        · exact (typeAt_of_mem_takeWhile member).2
      · obtain ⟨slot, type, start, rest, isRun, inFollowing, typed⟩ := ih member
        exact ⟨slot, type, start, rest, isRun, inFollowing.cons first, typed⟩

theorem mem_of_mem_inBlock {previous : Option Nat} {positions : List Nat} {scope : Scope}
    {position : Nat} (member : scope ∈ inBlock frames maxLocals previous positions)
    (isPosition : position ∈ scope.positions) : position ∈ positions := by
  obtain ⟨slot, type, first, rest, rfl, sublist, _⟩ := exists_run_of_mem_inBlock member
  exact sublist.mem (mem_positions_ofRun.mp isPosition)

/-- Scopes that begin in a block keep to its positions. -/
theorem sound_inBlock {previous : Option Nat} {positions : List Nat} {scope : Scope}
    (ascending : positions.Pairwise (· < ·))
    (inBlock : ∀ position ∈ positions, flow.InBlock position)
    (member : scope ∈ Scope.inBlock frames maxLocals previous positions) :
    scope.Sound flow frames := by
  obtain ⟨slot, type, first, rest, rfl, sublist, typed⟩ :=
    exists_run_of_mem_inBlock member
  obtain ⟨isLeast, isGreatest⟩ :=
    @ends_ofRun slot first type rest (ascending.sublist sublist)
  refine ⟨isLeast, isGreatest, fun isPosition => ?_,
    fun isPosition => ⟨type, ?_, .inl rfl⟩⟩
  · exact inBlock _ (mem_of_mem_inBlock member isPosition)
  · exact typed _ (mem_positions_ofRun.mp isPosition)

/-! ## Covers -/

/-- Each variable of a method is in exactly one scope. -/
structure IsCover (flow : Flow) (frames : Frames) (scopes : List Scope) : Prop where
  sound {scope : Scope} (member : scope ∈ scopes) : scope.Sound flow frames
  unique (slot position : Nat) : scopes.countP (holds slot position) ≤ 1
  total {slot position : Nat} (inBlock : flow.InBlock position)
    (hasType : (typeAt frames position slot).isSome = true) :
    0 < scopes.countP (holds slot position)

/-- The scopes within the blocks of a method cover its variables. -/
theorem isCover_ofBlocks (closed : flow.Closed) (sized : frames.size = flow.size)
    (below : SlotsBelow frames maxLocals) :
    IsCover flow frames (ofBlocks flow frames maxLocals) := by
  have inBlock {entry position : Nat} (isEntry : entry ∈ flow.entries.toList)
      (member : position ∈ blockFrom flow frames.size entry) : flow.InBlock position := by
    rw [mem_blockFrom, sized] at member
    exact ⟨member.1, entry, IndexSet.mem_toList.mp isEntry, member.2⟩
  have ascending (entry : Nat) := pairwise_blockFrom flow frames.size entry
  have nodup (entry : Nat) := (ascending entry).imp Nat.ne_of_lt
  constructor
  · intro scope member
    obtain ⟨entry, isEntry, member⟩ := List.mem_flatMap.mp member
    exact sound_inBlock (ascending entry) (fun position => inBlock isEntry) member
  · intro slot position
    rw [countP_le_one, ofBlocks, List.pairwise_flatMap]
    constructor
    · intro entry _
      rw [← countP_le_one, countP_inBlock below (nodup entry)]
      split
      · exact Nat.le_refl 1
      · exact Nat.zero_le 1
    · apply flow.entries.pairwise_toList.imp_of_mem
      intro left right leftEntry rightEntry before x inLeft y inRight both
      simp only [holds_iff] at both
      have leftBlock := mem_blockFrom.mp (mem_of_mem_inBlock inLeft both.1.2)
      have rightBlock := mem_blockFrom.mp (mem_of_mem_inBlock inRight both.2.2)
      exact Nat.ne_of_lt before (closed.entry_unique (sized ▸ leftBlock.1)
        (IndexSet.mem_toList.mp leftEntry) (IndexSet.mem_toList.mp rightEntry)
        leftBlock.2 rightBlock.2)
  · intro slot position inBlock hasType
    obtain ⟨inBounds, entry, isEntry, inEntry⟩ := inBlock
    have one :
        (Scope.inBlock frames maxLocals none (blockFrom flow frames.size entry)).countP
        (holds slot position) = 1 := by
      rw [countP_inBlock below (nodup entry), if_pos]
      refine ⟨mem_blockFrom.mpr ⟨sized ▸ inBounds, inEntry⟩, hasType, fun inRun => ?_⟩
      rw [(typeAt_of_mem_takeWhile inRun).2] at hasType
      cases hasType
    obtain ⟨scope, member, holds⟩ := List.countP_pos_iff.mp (one ▸ Nat.one_pos)
    exact List.countP_pos_iff.mpr
      ⟨scope, List.mem_flatMap.mpr ⟨entry, IndexSet.mem_toList.mpr isEntry,
        member⟩, holds⟩

/-! ## Merging -/

theorem IsCover.perm {left right : List Scope} (same : left.Perm right)
    (cover : IsCover flow frames left) : IsCover flow frames right where
  sound member := cover.sound (same.mem_iff.mpr member)
  unique slot position :=
    same.countP_eq (holds slot position) ▸ cover.unique slot position
  total inBlock hasType := same.countP_eq _ ▸ cover.total inBlock hasType

/-- Scopes of one slot that can be merged: the type fits whatever fits one of
theirs. -/
def Joins (left right : Scope) (type : ValueType) : Prop :=
  left.slot = right.slot ∧ ∀ held, Fits held left.type ∨ Fits held right.type →
    Fits held type

theorem fits_commonType? {left right common held : ValueType}
    (fit : commonType? left right = some common)
    (either : Fits held left ∨ Fits held right) :
    Fits held common := by
  unfold commonType? at fit
  simp only [Bool.and_eq_true, decide_eq_true_eq] at fit
  split at fit
  next same =>
    cases fit
    subst same
    exact either.elim id id
  next =>
    split at fit
    next isNull =>
      cases fit
      obtain ⟨rfl, isReference⟩ := isNull
      rcases either with (rfl | ⟨rfl, _⟩) | fits
      · exact .inr ⟨rfl, isReference⟩
      · exact .inr ⟨rfl, isReference⟩
      · exact fits
    next =>
      split at fit
      next isNull =>
        cases fit
        obtain ⟨rfl, isReference⟩ := isNull
        rcases either with fits | (rfl | ⟨rfl, _⟩)
        · exact fits
        · exact .inr ⟨rfl, isReference⟩
        · exact .inr ⟨rfl, isReference⟩
      next => cases fit

theorem joins_of_mergeable? {scope other : Scope} {position : Nat} {type : ValueType}
    (fit : mergeable? scope position other = some type) :
    Joins scope other type ∧ Joins other scope type := by
  unfold mergeable? at fit
  split at fit
  next meets =>
    simp only [Bool.and_eq_true, decide_eq_true_eq] at meets
    exact ⟨⟨meets.1.symm, fun _ => fits_commonType? fit⟩,
      ⟨meets.1, fun _ either => fits_commonType? fit either.symm⟩⟩
  next => cases fit

theorem mergeInto_eq_some {scope : Scope} {position : Nat} {others merged : List Scope}
    (taken : mergeInto scope position others = some merged) :
    ∃ before other after type, others = before ++ other :: after ∧
      merged = before ++ other.absorb scope type :: after ∧ Joins other scope type := by
  induction others generalizing merged with
  | nil => cases taken
  | cons other rest ih =>
      unfold mergeInto at taken
      split at taken
      next type fit =>
        cases taken
        exact ⟨[], other, rest, type, rfl, rfl, (joins_of_mergeable? fit).2⟩
      next =>
        obtain ⟨following, inRest, rfl⟩ := Option.map_eq_some_iff.mp taken
        obtain ⟨before, found, after, type, rfl, rfl, joins⟩ := ih inRest
        exact ⟨other :: before, found, after, type, rfl, rfl, joins⟩

theorem mergeFrom_eq_some {scope merged : Scope} {position : Nat}
    {others rest : List Scope}
    (taken : mergeFrom scope position others = some (merged, rest)) :
    ∃ before other after type, others = before ++ other :: after ∧
      rest = before ++ after ∧
      merged = scope.absorb other type ∧ Joins scope other type := by
  induction others generalizing rest with
  | nil => cases taken
  | cons other following ih =>
      unfold mergeFrom at taken
      split at taken
      next type fit =>
        cases taken
        exact ⟨[], other, following, type, rfl, rfl, rfl, (joins_of_mergeable? fit).1⟩
      next =>
        obtain ⟨⟨found, kept⟩, inRest, same⟩ := Option.map_eq_some_iff.mp taken
        cases same
        obtain ⟨before, absorbed, after, type, rfl, rfl, rfl, joins⟩ := ih inRest
        exact ⟨other :: before, absorbed, after, type, rfl, rfl, rfl, joins⟩

theorem merge?_intoEarlier {scope : Scope} {earlier later merged : List Scope}
    (outcome : merge? flow scope earlier later = some (.intoEarlier merged)) :
    ∃ before other after type, earlier = before ++ other :: after ∧
      merged = before ++ other.absorb scope type :: after ∧ Joins other scope type := by
  obtain ⟨position, _, taken⟩ := List.exists_of_findSome?_eq_some outcome
  unfold mergeAt? at taken
  split at taken
  next inEarlier =>
    cases taken
    exact mergeInto_eq_some inEarlier
  next => simp at taken

theorem merge?_withLater {scope merged : Scope} {earlier later rest : List Scope}
    (outcome : merge? flow scope earlier later = some (.withLater merged rest)) :
    ∃ before other after type, later = before ++ other :: after ∧ rest = before ++ after ∧
      merged = scope.absorb other type ∧ Joins scope other type := by
  obtain ⟨position, _, taken⟩ := List.exists_of_findSome?_eq_some outcome
  unfold mergeAt? at taken
  split at taken
  next => cases taken
  next =>
    obtain ⟨⟨found, kept⟩, inLater, same⟩ := Option.map_eq_some_iff.mp taken
    cases same
    exact mergeFrom_eq_some inLater

/-- What the order of scopes does not matter for, and what putting one scope for
two keeps, holds after merging if it holds before. -/
theorem mergeAll_induction {P : List Scope → Prop} {earlier later : List Scope}
    (perm : ∀ left right, left.Perm right → P left → P right)
    (absorb : ∀ left right type rest, Joins left right type → P (left :: right :: rest) →
      P (left.absorb right type :: rest))
    (start : P (earlier ++ later)) : P (mergeAll flow earlier later) := by
  fun_induction mergeAll flow earlier later with
  | case1 later => exact start
  | case2 later scope earlier merged outcome _ ih =>
      obtain ⟨before, other, after, type, split, rfl, joins⟩ := merge?_intoEarlier outcome
      have isEarlier : earlier.Perm (other :: (before ++ after)) :=
        (List.reverse_perm earlier).symm.trans (split ▸ List.perm_middle)
      apply ih
      refine perm _ _ ?_ (absorb other scope type (before ++ after ++ later) joins
        (perm _ _ ?_ start))
      · exact (((List.reverse_perm _).trans List.perm_middle).append_right later).symm
      · exact ((isEarlier.append_right later).cons scope).trans (.swap ..)
  | case3 later scope earlier merged rest outcome _ ih =>
      obtain ⟨before, other, after, type, rfl, rfl, rfl, joins⟩ :=
        merge?_withLater outcome
      apply ih
      refine perm _ _ ?_ (absorb scope other type (earlier ++ (before ++ after)) joins
        (perm _ _ ?_ start))
      · exact .refl _
      · exact (((List.perm_middle.append_left earlier).trans List.perm_middle).cons scope)
  | case4 later scope earlier _ ih =>
      apply ih
      exact perm _ _ List.perm_middle.symm start

theorem holds_absorb {left right : Scope} {type : ValueType} {slot position : Nat}
    (sameSlot : left.slot = right.slot) :
    (left.absorb right type).holds slot position =
      (left.holds slot position || right.holds slot position) := by
  rw [Bool.eq_iff_iff, Bool.or_eq_true, holds_iff, holds_iff, holds_iff, ← sameSlot,
    ← and_or_left]
  exact and_congr_right' IndexSet.mem_union

theorem ends_absorb {left right : Scope} (type : ValueType)
    (leftLeast : IsLeast {position | position ∈ left.positions} left.first)
    (leftGreatest : IsGreatest {position | position ∈ left.positions} left.last)
    (rightLeast : IsLeast {position | position ∈ right.positions} right.first)
    (rightGreatest : IsGreatest {position | position ∈ right.positions} right.last) :
    IsLeast {position | position ∈ (left.absorb right type).positions}
        (left.absorb right type).first ∧
      IsGreatest {position | position ∈ (left.absorb right type).positions}
        (left.absorb right type).last := by
  have positions : {position | position ∈ (left.absorb right type).positions} =
      {position | position ∈ left.positions} ∪
          {position | position ∈ right.positions} := by
    ext position
    exact IndexSet.mem_union
  rw [positions]
  exact ⟨leftLeast.union rightLeast, leftGreatest.union rightGreatest⟩

theorem Sound.absorb {left right : Scope} {type : ValueType}
    (joins : Joins left right type) (leftSound : left.Sound flow frames)
    (rightSound : right.Sound flow frames) :
    (left.absorb right type).Sound flow frames := by
  obtain ⟨isLeast, isGreatest⟩ := ends_absorb type leftSound.isLeast leftSound.isGreatest
    rightSound.isLeast rightSound.isGreatest
  refine ⟨isLeast, isGreatest, fun member => ?_, fun member => ?_⟩
  · exact (IndexSet.mem_union.mp member).elim leftSound.inBlock rightSound.inBlock
  · rcases IndexSet.mem_union.mp member with member | member
    · obtain ⟨held, hasType, fits⟩ := leftSound.typed member
      exact ⟨held, hasType, joins.2 held (.inl fits)⟩
    · obtain ⟨held, hasType, fits⟩ := rightSound.typed member
      exact ⟨held, joins.1 ▸ hasType, joins.2 held (.inr fits)⟩

/-- Since no two scopes hold the same variable, one scope for two counts as much
as both of them. -/
theorem IsCover.absorb {left right : Scope} {type : ValueType} {rest : List Scope}
    (joins : Joins left right type)
    (cover : IsCover flow frames (left :: right :: rest)) :
    IsCover flow frames (left.absorb right type :: rest) := by
  have count (slot position : Nat) :
      (left.absorb right type :: rest).countP (holds slot position) =
        (left :: right :: rest).countP (holds slot position) := by
    have unique := cover.unique slot position
    simp only [List.countP_cons, holds_absorb joins.1] at unique ⊢
    generalize left.holds slot position = inLeft at unique ⊢
    generalize right.holds slot position = inRight at unique ⊢
    cases inLeft <;> cases inRight <;> simp_all
  constructor
  · intro scope member
    rcases List.mem_cons.mp member with rfl | member
    · exact .absorb joins (cover.sound (List.mem_cons_self ..))
        (cover.sound (List.mem_cons_of_mem _ (List.mem_cons_self ..)))
    · exact cover.sound (List.mem_cons_of_mem _ (List.mem_cons_of_mem _ member))
  · intro slot position
    exact count slot position ▸ cover.unique slot position
  · intro slot position inBlock hasType
    exact count slot position ▸ cover.total inBlock hasType

theorem isCover_merged (closed : flow.Closed) (sized : frames.size = flow.size)
    (below : SlotsBelow frames maxLocals) :
    IsCover flow frames (merged flow frames maxLocals) := by
  apply mergeAll_induction
  · exact fun _ _ => IsCover.perm
  · exact fun _ _ _ _ => IsCover.absorb
  · rw [List.append_nil]
    exact (isCover_ofBlocks closed sized below).perm (List.reverse_perm _).symm

end LocalTable.Scope
