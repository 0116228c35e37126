import Mathlib.Data.List.Induction
import LocalTable.Proofs.Frames.Seeds

/-!
# Snapshots that change the one before

A snapshot lists values, a frame has slots.  A value that cannot be used leaves its slot
empty, and a wide value takes two, so the values fill a run of slots one after the other.
What a snapshot describes is such a run from the first slot on, with nothing behind it.
Further values extend the run, and chopping values takes their slots off its end.  Hence
changes to a snapshot compose as lists of values do.
-/

namespace LocalTable.Frame

variable {frame next middle : Frame} {resolve : Resolver}

/-! ## Slots of values -/

/-- The slots that a value of a snapshot takes. -/
def spread (type : Option ValueType) : List (Option ValueType) :=
  if (type.map ValueType.width).getD 1 = 2 then [type, some .top] else [type]

theorem spread_of_narrow {type : Option ValueType}
    (isNarrow : (type.map ValueType.width).getD 1 = 1) : spread type = [type] := by
  rw [spread, isNarrow, if_neg (by decide)]

theorem spread_of_wide {type : Option ValueType}
    (isWide : (type.map ValueType.width).getD 1 = 2) :
    spread type = [type, some .top] := by
  rw [spread, if_pos isWide]

theorem length_spread (type : Option ValueType) :
    (spread type).length = (type.map ValueType.width).getD 1 := by
  rcases width_getD_eq type with isNarrow | isWide
  · rw [spread_of_narrow isNarrow, isNarrow, List.length_singleton]
  · rw [spread_of_wide isWide, isWide, List.length_cons, List.length_singleton]

/-- The values are resolved, and fill the slots one after the other. -/
inductive Fills (resolve : Resolver) : List VerificationType → List
    (Option ValueType) → Prop where
  | nil : Fills resolve [] []
  | cons {value : VerificationType} {values : List VerificationType}
      {type : Option ValueType}
      {slots : List (Option ValueType)} (resolved : resolve value = .ok type)
      (rest : Fills resolve values slots) :
      Fills resolve (value :: values) (spread type ++ slots)

theorem fills_append {first second : List VerificationType}
    {slots : List (Option ValueType)} :
    Fills resolve (first ++ second) slots ↔
      ∃ left right, Fills resolve first left ∧ Fills resolve second right ∧
        slots = left ++ right := by
  induction first generalizing slots with
  | nil =>
      constructor
      · intro fills
        exact ⟨[], slots, .nil, fills, rfl⟩
      · rintro ⟨_, right, ⟨⟩, fills, rfl⟩
        exact fills
  | cons value rest ih =>
      constructor
      · rintro (_ | ⟨resolved, fills⟩)
        obtain ⟨left, right, fillsLeft, fillsRight, rfl⟩ := ih.mp fills
        exact ⟨_, right, .cons resolved fillsLeft, fillsRight,
          (List.append_assoc ..).symm⟩
      · rintro ⟨_, right, _ | ⟨resolved, fillsLeft⟩, fillsRight, rfl⟩
        rw [List.append_assoc, List.cons_append]
        exact .cons resolved (ih.mpr ⟨_, right, fillsLeft, fillsRight, rfl⟩)

theorem fills_singleton {value : VerificationType} {slots : List (Option ValueType)} :
    Fills resolve [value] slots ↔ ∃ type, resolve value = .ok type ∧
      slots = spread type := by
  constructor
  · rintro (_ | ⟨resolved, ⟨⟩⟩)
    exact ⟨_, resolved, List.append_nil _⟩
  · rintro ⟨type, resolved, rfl⟩
    rw [← List.append_nil (spread type)]
    exact .cons resolved .nil

/-! ## Overwriting -/

/-- A list with a run of items in the place of others. -/
def splice {α : Type} (items : List α) (place : Nat) (run : List α) : List α :=
  items.take place ++ run ++ items.drop (place + run.length)

theorem splice_nil {α : Type} (items : List α) (place : Nat) :
    splice items place [] = items := by
  simp [splice]

theorem length_splice {α : Type} {items run : List α} {place : Nat}
    (fits : place + run.length ≤ items.length) :
    (splice items place run).length = items.length := by
  simp only [splice, List.length_append, List.length_take, List.length_drop]
  omega

/-- Runs that follow each other are one run. -/
theorem splice_splice {α : Type} {items first second : List α} {place : Nat}
    (fits : place ≤ items.length) :
    splice (splice items place first) (place + first.length) second =
      splice items place (first ++ second) := by
  have length_eq : (items.take place ++ first).length = place + first.length := by
    simp [fits]
  simp only [splice]
  rw [List.take_left' length_eq, List.drop_append, length_eq, List.drop_drop,
    List.drop_eq_nil_of_le (by omega), List.length_append, List.nil_append,
    List.append_assoc _ _ second]
  congr 2
  omega

theorem set_eq_splice {α : Type} {items : List α} {place : Nat}
    (fits : place < items.length) (item : α) :
    items.set place item = splice items place [item] := by
  rw [List.set_eq_take_append_cons_drop, if_pos fits, splice, List.append_assoc]
  rfl

/-- Storing a value in the locals overwrites the slots that it takes. -/
theorem stored_eq_splice {locals : Array (Option ValueType)} {slot : Nat}
    {type : Option ValueType}
    (fits : slot + (type.map ValueType.width).getD 1 ≤ locals.size) :
    (if (type.map ValueType.width).getD 1 = 2 then
        (locals.setIfInBounds slot type).setIfInBounds (slot + 1) (some .top)
      else locals.setIfInBounds slot type) =
        (splice locals.toList slot (spread type)).toArray := by
  apply Array.ext'
  rcases width_getD_eq type with isNarrow | isWide
  · rw [isNarrow] at fits
    rw [spread_of_narrow isNarrow, isNarrow, if_neg (by decide),
      Array.toList_setIfInBounds]
    exact set_eq_splice fits type
  · rw [isWide] at fits
    have lowerFits : slot < locals.toList.length := Nat.lt_of_succ_lt fits
    have upperFits : slot + 1 < (splice locals.toList slot [type]).length := by
      rw [length_splice lowerFits]
      exact fits
    rw [spread_of_wide isWide, if_pos isWide, Array.toList_setIfInBounds,
      Array.toList_setIfInBounds, set_eq_splice lowerFits, set_eq_splice upperFits]
    exact splice_splice (Nat.le_of_lt lowerFits)

theorem unpackFrom_cons {value : VerificationType} {rest : List VerificationType}
    {type : Option ValueType} (resolved : resolve value = .ok type) (count slot : Nat) :
    frame.unpackFrom resolve count slot (value :: rest) =
      if frame.locals.size < slot + (spread type).length then
        .error (.localsDoNotFit count frame.locals.size)
      else
        { frame with locals := (splice frame.locals.toList slot (spread type)).toArray
          }.unpackFrom resolve count (slot + (spread type).length) rest := by
  rw [unpackFrom, resolved]
  change (if frame.locals.size < slot + (type.map ValueType.width).getD 1 then _
    else _) = _
  rw [length_spread]
  split
  next => rfl
  next fits => rw [stored_eq_splice (Nat.le_of_not_lt fits)]

/-- What it means to unpack values: they fill slots for which there is room. -/
theorem unpackFrom_eq_ok_iff {values : List VerificationType} {count slot stop : Nat}
    (inBounds : slot ≤ frame.locals.size) :
    frame.unpackFrom resolve count slot values = .ok (stop, next) ↔
      ∃ slots, Fills resolve values slots ∧ stop = slot + slots.length ∧
        stop ≤ frame.locals.size ∧
        next =
          { frame with locals := (splice frame.locals.toList slot slots).toArray } := by
  induction values generalizing frame slot with
  | nil =>
      constructor
      · rintro ⟨⟩
        exact ⟨[], .nil, rfl, inBounds, by rw [splice_nil]⟩
      · rintro ⟨_, ⟨⟩, rfl, _, rfl⟩
        rw [splice_nil]
        rfl
  | cons value rest ih =>
      have joined (first second : List (Option ValueType)) :
          splice (splice frame.locals.toList slot first) (slot + first.length) second =
            splice frame.locals.toList slot (first ++ second) :=
        splice_splice (by simpa using inBounds)
      have sameSize {type : Option ValueType}
          (fits : slot + (spread type).length ≤ frame.locals.size) :
          (splice frame.locals.toList slot (spread type)).toArray.size =
              frame.locals.size := by
        simpa using length_splice fits
      constructor
      · intro unpacked
        obtain ⟨type, resolved, _⟩ := bind_eq_ok.mp unpacked
        rw [unpackFrom_cons resolved] at unpacked
        split at unpacked
        next => cases unpacked
        next fits =>
          have sameSize := sameSize (Nat.le_of_not_lt fits)
          obtain ⟨slots, fills, rfl, room, rfl⟩ :=
            (ih (sameSize.symm ▸ Nat.le_of_not_lt fits)).mp unpacked
          refine ⟨_, .cons resolved fills, ?_, sameSize ▸ room, ?_⟩
          · rw [List.length_append, Nat.add_assoc]
          · rw [joined]
      · rintro ⟨_, _ | @⟨_, _, type, slots, resolved, fills⟩, isStop, room, isNext⟩
        rw [List.length_append, ← Nat.add_assoc] at isStop
        have fits : slot + (spread type).length ≤ frame.locals.size := by omega
        have sameSize := sameSize fits
        rw [unpackFrom_cons resolved, if_neg (Nat.not_lt.mpr fits)]
        exact (ih (sameSize.symm ▸ fits)).mpr
          ⟨slots, fills, isStop, sameSize.symm ▸ room, by rw [joined, isNext]⟩

/-! ## Described slots -/

/-- The frame that a snapshot of these slots gives: there is nothing behind them and
nothing on the stack. -/
def showing (frame : Frame) (slots : List (Option ValueType)) : Frame :=
  { frame with
    locals := (slots ++ List.replicate (frame.locals.size - slots.length) none).toArray
    stack := []
    described := slots.length
    seeded := true }

/-- The slots that the last snapshot described. -/
def describedSlots (frame : Frame) : List (Option ValueType) :=
  frame.locals.toList.take frame.described

theorem length_describedSlots (inBounds : frame.described ≤ frame.locals.size) :
    frame.describedSlots.length = frame.described := by
  simp [describedSlots, inBounds]

section Showing

variable {slots : List (Option ValueType)}

theorem size_showing (fits : slots.length ≤ frame.locals.size) :
    (frame.showing slots).locals.size = frame.locals.size := by
  simp only [showing, List.size_toArray, List.length_append, List.length_replicate]
  omega

theorem describedSlots_showing : (frame.showing slots).describedSlots = slots := by
  simp [describedSlots, showing]

/-- What was shown before does not matter. -/
theorem showing_showing {others : List (Option ValueType)}
    (fits : slots.length ≤ frame.locals.size) :
    (frame.showing slots).showing others = frame.showing others := by
  have sameSize := size_showing fits
  simp only [showing] at sameSize ⊢
  rw [sameSize]

end Showing

theorem cleared_splice {locals : Array (Option ValueType)} {slot : Nat}
    {slots : List (Option ValueType)} (fits : slot + slots.length ≤ locals.size) :
    ((splice locals.toList slot slots).toArray.mapIdx fun index type =>
        if index < slot + slots.length then type else none) =
      (locals.toList.take slot ++ slots ++
        List.replicate (locals.size - (slot + slots.length)) none).toArray := by
  apply Array.ext'
  apply List.ext_getElem?
  intro other
  simp only [splice, List.mapIdx_toArray, List.getElem?_mapIdx]
  grind

/-- Values that are unpacked behind a slot are shown behind the slots before it. -/
theorem unpackLocals_eq_ok_iff {values : List VerificationType} {slot : Nat}
    (inBounds : slot ≤ frame.locals.size) :
    (∃ unpacked, frame.unpackLocals resolve slot values = .ok unpacked ∧
        next = { unpacked.clearStack with seeded := true }) ↔
      ∃ slots, Fills resolve values slots ∧ slot + slots.length ≤ frame.locals.size ∧
        next = frame.showing (frame.locals.toList.take slot ++ slots) := by
  have shown {slots : List (Option ValueType)}
      (room : slot + slots.length ≤ frame.locals.size) :
      frame.showing (frame.locals.toList.take slot ++ slots) =
        { frame with
          locals := (splice frame.locals.toList slot slots).toArray.mapIdx
              fun index type =>
            if index < slot + slots.length then type else none
          stack := []
          described := slot + slots.length
          seeded := true } := by
    have length_eq : (frame.locals.toList.take slot ++ slots).length =
        slot + slots.length := by
      simp [inBounds]
    rw [showing, length_eq, cleared_splice room]
  constructor
  · rintro ⟨unpacked, isUnpacked, rfl⟩
    obtain ⟨⟨stop, filled⟩, isFilled, ⟨⟩⟩ := bind_eq_ok.mp isUnpacked
    obtain ⟨slots, fills, rfl, room, rfl⟩ := (unpackFrom_eq_ok_iff inBounds).mp isFilled
    exact ⟨slots, fills, room, (shown room).symm⟩
  · rintro ⟨slots, fills, room, rfl⟩
    have isFilled : frame.unpackFrom resolve values.length slot values = .ok (_, _) :=
      (unpackFrom_eq_ok_iff inBounds).mpr ⟨slots, fills, rfl, room, rfl⟩
    exact ⟨_, bind_eq_ok.mpr ⟨_, isFilled, rfl⟩, shown room⟩

/-- An appending snapshot shows further slots behind those that are described. -/
theorem expand_append_eq_ok_iff {values : List VerificationType}
    (inBounds : frame.described ≤ frame.locals.size) :
    frame.expand resolve (.append values) = .ok next ↔
      ∃ slots, Fills resolve values slots ∧
        frame.described + slots.length ≤ frame.locals.size ∧
        next = frame.showing (frame.describedSlots ++ slots) := by
  rw [describedSlots, ← unpackLocals_eq_ok_iff inBounds]
  constructor
  · intro expanded
    obtain ⟨unpacked, isUnpacked, ⟨⟩⟩ := bind_eq_ok.mp expanded
    exact ⟨unpacked, isUnpacked, rfl⟩
  · rintro ⟨unpacked, isUnpacked, rfl⟩
    exact bind_eq_ok.mpr ⟨unpacked, isUnpacked, rfl⟩

/-- A full snapshot shows its own slots only. -/
theorem expand_full_eq_ok_iff {values : List VerificationType} :
    frame.expand resolve (.full values []) = .ok next ↔
      ∃ slots, Fills resolve values slots ∧ slots.length ≤ frame.locals.size ∧
        next = frame.showing slots := by
  have unpacks := @unpackLocals_eq_ok_iff frame next resolve values 0 (Nat.zero_le _)
  simp only [List.take_zero, List.nil_append, Nat.zero_add] at unpacks
  rw [← unpacks]
  constructor
  · intro expanded
    obtain ⟨unpacked, isUnpacked, pushed⟩ := bind_eq_ok.mp expanded
    obtain ⟨_, ⟨⟩, ⟨⟩⟩ := bind_eq_ok.mp pushed
    exact ⟨unpacked, isUnpacked, rfl⟩
  · rintro ⟨unpacked, isUnpacked, rfl⟩
    exact bind_eq_ok.mpr ⟨unpacked, isUnpacked, rfl⟩

/-! ## Chopping -/

/-- Empty a slot, and describe the slots below it only. -/
def chopTo (frame : Frame) (slot : Nat) : Frame :=
  { frame with locals := frame.locals.setIfInBounds slot none, described := slot }

theorem chopLocals_succ {last : Nat} (described_eq : frame.described = last + 1)
    (total count : Nat) :
    frame.chopLocals total (count + 1) =
      if frame.localAt last = some .top ∧ 0 < last then
        ((frame.chopTo last).chopTo (last - 1)).chopLocals total count
      else
        (frame.chopTo last).chopLocals total count := by
  rw [chopLocals, described_eq]
  rfl

theorem chopTo_showing {slots : List (Option ValueType)} {type : Option ValueType}
    (fits : (slots ++ [type]).length ≤ frame.locals.size) :
    (frame.showing (slots ++ [type])).chopTo slots.length = frame.showing slots := by
  have locals_eq : (frame.showing (slots ++ [type])).locals.setIfInBounds
      slots.length none = (frame.showing slots).locals := by
    rw [List.length_append, List.length_singleton] at fits
    apply Array.ext'
    apply List.ext_getElem?
    intro other
    simp only [showing, List.setIfInBounds_toArray]
    grind
  rw [chopTo, locals_eq]
  rfl

theorem localAt_showing_concat (frame : Frame) (slots : List (Option ValueType))
    (type : Option ValueType) :
    (frame.showing (slots ++ [type])).localAt slots.length = type := by
  simp [localAt_eq, showing]

/-- Chopping one value takes its slots away, however many they are. -/
theorem chopLocals_showing_spread {slots : List (Option ValueType)}
    {type : Option ValueType} (isValue : type ≠ some .top)
    (fits : (slots ++ spread type).length ≤ frame.locals.size) (total count : Nat) :
    (frame.showing (slots ++ spread type)).chopLocals total (count + 1) =
      (frame.showing slots).chopLocals total count := by
  have described_eq (shorter : List (Option ValueType)) (last : Option ValueType) :
      (frame.showing (shorter ++ [last])).described = shorter.length + 1 := by
    simp [showing]
  rcases width_getD_eq type with isNarrow | isWide
  · rw [spread_of_narrow isNarrow] at fits ⊢
    rw [chopLocals_succ (described_eq slots type), localAt_showing_concat,
      if_neg (fun isUpper => isValue isUpper.1), chopTo_showing fits]
  · rw [spread_of_wide isWide, List.append_cons] at fits ⊢
    have shorter : (slots ++ [type]).length ≤ frame.locals.size := by
      rw [List.length_append] at fits
      omega
    have isUpper : some ValueType.top = some .top ∧
        0 < (slots ++ [type]).length := by simp
    have isLower : (slots ++ [type]).length - 1 = slots.length := by simp
    rw [chopLocals_succ (described_eq (slots ++ [type]) (some .top)),
      localAt_showing_concat, if_pos isUpper, chopTo_showing fits, isLower,
        chopTo_showing shorter]

/-- Chopping as many values as were shown last leaves the slots before them. -/
theorem chopLocals_showing {values : List VerificationType}
    {base slots : List (Option ValueType)} (honest : Honest resolve)
    (fills : Fills resolve values slots)
    (fits : (base ++ slots).length ≤ frame.locals.size) (total : Nat) :
    (frame.showing (base ++ slots)).chopLocals total values.length =
      .ok (frame.showing base) := by
  induction values using List.reverseRecOn generalizing slots with
  | nil =>
      cases fills
      rw [List.append_nil]
      rfl
  | append_singleton values value ih =>
      obtain ⟨left, right, fillsLeft, fillsRight, rfl⟩ := fills_append.mp fills
      obtain ⟨type, resolved, rfl⟩ := fills_singleton.mp fillsRight
      rw [← List.append_assoc] at fits ⊢
      rw [List.length_append, List.length_singleton, chopLocals_showing_spread ?_ fits]
      · apply ih fillsLeft
        rw [List.length_append] at fits
        omega
      · rintro rfl
        exact honest value resolved

/-! ## Described slots are slots -/

theorem le_size_of_storeParameters {types : List FieldType} {slot stop : Nat}
    (inBounds : slot ≤ frame.locals.size)
    (stored : frame.storeParameters slot types = .ok (stop, next)) :
    stop ≤ next.locals.size := by
  induction types generalizing frame slot with
  | nil =>
      cases stored
      exact inBounds
  | cons type rest ih =>
      obtain ⟨_, middle, first, stored⟩ := storeParameters_cons_iff.mp stored
      obtain ⟨fits, _, size_eq⟩ := setLocal_eq_ok first
      exact ih (size_eq ▸ fits) stored

theorem described_le_of_entry {receiver : Option BinaryName}
    {descriptor : MethodDescriptor} {maxLocals maxStack : Nat}
    (entered : entry receiver descriptor maxLocals maxStack = .ok frame) :
    frame.described ≤ frame.locals.size := by
  obtain ⟨stop, stored, isStored, rfl⟩ := storeParameters_of_entry entered
  have stop_le := le_size_of_storeParameters (Nat.zero_le _) isStored
  exact stop_le

theorem described_le_of_unpackLocals {values : List VerificationType} {slot : Nat}
    (inBounds : slot ≤ frame.locals.size)
    (unpacked : frame.unpackLocals resolve slot values = .ok next) :
    next.described ≤ next.locals.size := by
  obtain ⟨⟨stop, filled⟩, isFilled, ⟨⟩⟩ := bind_eq_ok.mp unpacked
  obtain ⟨slots, _, rfl, room, rfl⟩ := (unpackFrom_eq_ok_iff inBounds).mp isFilled
  simpa [length_splice room] using room

theorem described_le_of_chopLocals {total count : Nat}
    (inBounds : frame.described ≤ frame.locals.size)
    (chopped : frame.chopLocals total count = .ok next) :
    next.described ≤ next.locals.size := by
  induction count generalizing frame with
  | zero =>
      cases chopped
      exact inBounds
  | succ count ih =>
      cases described_eq : frame.described with
      | zero =>
          rw [chopLocals, described_eq] at chopped
          cases chopped
      | succ last =>
          rw [described_eq] at inBounds
          rw [chopLocals_succ described_eq] at chopped
          split at chopped
          · refine ih ?_ chopped
            simp only [chopTo, Array.size_setIfInBounds]
            omega
          · refine ih ?_ chopped
            simp only [chopTo, Array.size_setIfInBounds]
            omega

theorem described_le_of_expand {snapshot : Snapshot}
    (inBounds : frame.described ≤ frame.locals.size)
    (expanded : frame.expand resolve snapshot = .ok next) :
    next.described ≤ next.locals.size := by
  cases snapshot with
  | full locals stack =>
      obtain ⟨unpacked, isUnpacked, expanded⟩ := bind_eq_ok.mp expanded
      obtain ⟨pushed, isPushed, ⟨⟩⟩ := bind_eq_ok.mp expanded
      obtain ⟨locals_eq, described_eq⟩ := pushValues_eq_ok isPushed
      have described_le := described_le_of_unpackLocals (Nat.zero_le _) isUnpacked
      exact locals_eq ▸ described_eq ▸ described_le
  | append locals =>
      obtain ⟨unpacked, isUnpacked, ⟨⟩⟩ := bind_eq_ok.mp expanded
      have described_le := described_le_of_unpackLocals inBounds isUnpacked
      exact described_le
  | chop count =>
      obtain ⟨chopped, isChopped, ⟨⟩⟩ := bind_eq_ok.mp expanded
      have described_le := described_le_of_chopLocals inBounds isChopped
      exact described_le
  | same =>
      cases expanded
      exact inBounds
  | sameOneStack value =>
      obtain ⟨pushed, isPushed, ⟨⟩⟩ := bind_eq_ok.mp expanded
      obtain ⟨locals_eq, described_eq⟩ := pushValues_eq_ok isPushed
      exact locals_eq ▸ described_eq ▸ inBounds

/-- Along a sequence of snapshots, every frame holds what is described and nothing
else. -/
theorem described_of_snapshots {snapshots : List Snapshot} {maxLocals : Nat}
    {start : Frame} (honest : Honest resolve) (isDescribed : start.Described maxLocals)
    (inBounds : start.described ≤ start.locals.size)
    (expanded : snapshots.foldlM
      (fun frame snapshot => frame.expand resolve snapshot) start =
      .ok frame) : frame.Described maxLocals ∧ frame.described ≤ frame.locals.size := by
  induction snapshots generalizing start with
  | nil =>
      cases expanded
      exact ⟨isDescribed, inBounds⟩
  | cons snapshot rest ih =>
      rw [List.foldlM_cons] at expanded
      obtain ⟨middle, first, expanded⟩ := bind_eq_ok.mp expanded
      exact ih (described_of_expand honest isDescribed first)
        (described_le_of_expand inBounds first) expanded

/-! ## Composition -/

/-- Appending to the slots that are shown shows all of them. -/
theorem expand_append_showing_iff {values : List VerificationType}
    {slots : List (Option ValueType)} (fits : slots.length ≤ frame.locals.size) :
    (frame.showing slots).expand resolve (.append values) = .ok next ↔
      ∃ more, Fills resolve values more ∧ slots.length + more.length ≤ frame.locals.size ∧
        next = frame.showing (slots ++ more) := by
  have size_eq := size_showing fits
  have inBounds : (frame.showing slots).described ≤
      (frame.showing slots).locals.size := by
    rw [size_eq]
    exact fits
  rw [expand_append_eq_ok_iff inBounds, describedSlots_showing, size_eq]
  simp only [showing_showing fits]
  rfl

theorem expand_append_append_iff {first second : List VerificationType}
    (inBounds : frame.described ≤ frame.locals.size) :
    (frame.expand resolve (.append first) >>= fun middle =>
        middle.expand resolve (.append second)) = .ok next ↔
      frame.expand resolve (.append (first ++ second)) = .ok next := by
  have length_eq := length_describedSlots inBounds
  rw [bind_eq_ok, expand_append_eq_ok_iff inBounds]
  constructor
  · rintro ⟨middle, isMiddle, expanded⟩
    obtain ⟨left, fillsLeft, fits, rfl⟩ := (expand_append_eq_ok_iff inBounds).mp isMiddle
    rw [← length_eq, ← List.length_append] at fits
    obtain ⟨right, fillsRight, room, rfl⟩ := (expand_append_showing_iff fits).mp expanded
    refine ⟨left ++ right, fills_append.mpr ⟨left, right, fillsLeft,
      fillsRight, rfl⟩, ?_, ?_⟩
    · rw [← length_eq]
      simpa [Nat.add_assoc] using room
    · rw [List.append_assoc]
  · rintro ⟨_, fills, room, rfl⟩
    obtain ⟨left, right, fillsLeft, fillsRight, rfl⟩ := fills_append.mp fills
    rw [List.length_append] at room
    have fits : frame.described + left.length ≤ frame.locals.size := by omega
    refine ⟨_, (expand_append_eq_ok_iff inBounds).mpr ⟨left, fillsLeft, fits, rfl⟩, ?_⟩
    rw [← length_eq, ← List.length_append] at fits
    refine (expand_append_showing_iff fits).mpr ⟨right, fillsRight, ?_, ?_⟩
    · rw [List.length_append, length_eq]
      omega
    · rw [List.append_assoc]

theorem expand_full_append_iff {first second : List VerificationType} :
    (frame.expand resolve (.full first []) >>= fun middle =>
        middle.expand resolve (.append second)) = .ok next ↔
      frame.expand resolve (.full (first ++ second) []) = .ok next := by
  rw [bind_eq_ok, expand_full_eq_ok_iff]
  constructor
  · rintro ⟨middle, isMiddle, expanded⟩
    obtain ⟨left, fillsLeft, fits, rfl⟩ := expand_full_eq_ok_iff.mp isMiddle
    obtain ⟨right, fillsRight, room, rfl⟩ := (expand_append_showing_iff fits).mp expanded
    refine ⟨left ++ right, fills_append.mpr ⟨left, right, fillsLeft, fillsRight, rfl⟩,
      ?_, rfl⟩
    rw [List.length_append]
    exact room
  · rintro ⟨_, fills, room, rfl⟩
    obtain ⟨left, right, fillsLeft, fillsRight, rfl⟩ := fills_append.mp fills
    rw [List.length_append] at room
    have fits : left.length ≤ frame.locals.size := by omega
    exact ⟨_, expand_full_eq_ok_iff.mpr ⟨left, fillsLeft, fits, rfl⟩,
      (expand_append_showing_iff fits).mpr ⟨right, fillsRight, room, rfl⟩⟩

theorem expand_append_chop {values : List VerificationType} {count : Nat}
    (honest : Honest resolve) (inBounds : frame.described ≤ frame.locals.size)
    (fewer : count ≤ values.length)
    (appended : frame.expand resolve (.append values) = .ok middle) :
    ∃ next, middle.expand resolve (.chop count) = .ok next ∧
      frame.expand resolve (.append (values.take (values.length - count))) =
        .ok next := by
  obtain ⟨slots, fills, room, rfl⟩ := (expand_append_eq_ok_iff inBounds).mp appended
  rw [← List.take_append_drop (values.length - count) values] at fills
  obtain ⟨left, right, fillsLeft, fillsRight, rfl⟩ := fills_append.mp fills
  rw [List.length_append] at room
  have length_eq := length_describedSlots inBounds
  have isCount : (values.drop (values.length - count)).length = count := by
    rw [List.length_drop]
    omega
  have fits : (frame.describedSlots ++ left ++ right).length ≤ frame.locals.size := by
    rw [List.length_append, List.length_append, length_eq]
    omega
  have chopped := chopLocals_showing honest fillsRight fits count
  rw [isCount, List.append_assoc] at chopped
  refine ⟨frame.showing (frame.describedSlots ++ left),
    bind_eq_ok.mpr ⟨_, chopped, rfl⟩, ?_⟩
  exact (expand_append_eq_ok_iff inBounds).mpr ⟨left, fillsLeft, by omega, rfl⟩

/-- However many snapshots have been gone through from the start of a method on, the
described slots are slots of the frame and there is nothing behind them, and chopping
never goes beyond them.  Appending twice is appending everything at once, also behind a
full snapshot, and chopping values that were appended is not to append them. -/
theorem snapshot_deltas_compose (honest : Honest resolve) {receiver : Option BinaryName}
    {descriptor : MethodDescriptor} {maxLocals maxStack : Nat} {start : Frame}
    (entered : entry receiver descriptor maxLocals maxStack = .ok start)
    {snapshots : List Snapshot}
    (expanded : snapshots.foldlM
      (fun frame snapshot => frame.expand resolve snapshot) start = .ok frame) :
    frame.described ≤ frame.locals.size ∧
      (∀ slot, frame.described ≤ slot → frame.localAt slot = none) ∧
      (∀ total count chopped, frame.chopLocals total count = .ok chopped →
        chopped.described ≤ chopped.locals.size) ∧
      (∀ first second next,
        (frame.expand resolve (.append first) >>= fun middle =>
            middle.expand resolve (.append second)) = .ok next ↔
          frame.expand resolve (.append (first ++ second)) = .ok next) ∧
      (∀ values count middle, count ≤ values.length →
        frame.expand resolve (.append values) = .ok middle →
        ∃ next, middle.expand resolve (.chop count) = .ok next ∧
          frame.expand resolve (.append (values.take (values.length - count))) =
            .ok next) ∧
      ∀ first second next,
        (frame.expand resolve (.full first []) >>= fun middle =>
            middle.expand resolve (.append second)) = .ok next ↔
          frame.expand resolve (.full (first ++ second) []) = .ok next := by
  obtain ⟨isDescribed, inBounds⟩ :=
    described_of_snapshots honest (described_entry entered)
    (described_le_of_entry entered) expanded
  refine ⟨inBounds, fun slot => isDescribed.beyond, ?_, ?_, ?_, ?_⟩
  · intro total count chopped
    exact described_le_of_chopLocals inBounds
  · intro first second next
    exact expand_append_append_iff inBounds
  · intro values count middle fewer
    exact expand_append_chop honest inBounds fewer
  · intro first second next
    exact expand_full_append_iff

theorem honest_resolve : Honest VerificationType.resolve := by
  intro value resolved
  cases value <;> cases resolved

/-- The start of a method with a wide parameter. -/
def wideEntry : Frame :=
  { locals := #[some .long, some .top, none, none, none, none, none, none]
    stack := []
    maxStack := 1
    described := 2
    seeded := false }

/-- A slot that cannot be used, and a wide value that goes again. -/
def mixedSnapshots : List Snapshot :=
  [.append [.top, .double], .chop 1, .sameOneStack .integer]

/-- The frame that these snapshots lead to. -/
def mixedFrame : Frame :=
  { wideEntry.showing [some .long, some .top, none] with stack := [⟨some .int, none⟩] }

/-- Of a slot that cannot be used and a wide value behind it, the value is chopped with
both of its slots. -/
theorem mixed_snapshot_deltas_compose :
    entry none ⟨[.base .long], none⟩ 8 1 = .ok wideEntry ∧
      mixedSnapshots.foldlM (fun frame snapshot =>
        frame.expand VerificationType.resolve snapshot)
        wideEntry = .ok mixedFrame ∧
      mixedFrame.described ≤ mixedFrame.locals.size ∧
      (∀ slot, mixedFrame.described ≤ slot → mixedFrame.localAt slot = none) ∧
      ∃ middle next,
        mixedFrame.expand VerificationType.resolve (.append [.top, .long]) = .ok middle ∧
        middle.expand VerificationType.resolve (.chop 1) = .ok next ∧
        mixedFrame.expand VerificationType.resolve (.append [.top]) = .ok next ∧
        [mixedFrame.described, middle.described, next.described] = [3, 6, 4] := by
  have entered : entry none ⟨[.base .long], none⟩ 8 1 = .ok wideEntry := by decide +kernel
  have expanded : mixedSnapshots.foldlM
      (fun frame snapshot => frame.expand VerificationType.resolve snapshot) wideEntry =
        .ok mixedFrame := by decide +kernel
  have appended : mixedFrame.expand VerificationType.resolve (.append [.top, .long]) =
      .ok (wideEntry.showing [some .long, some .top, none, none, some .long,
          some .top]) := by
    decide +kernel
  have shorter : mixedFrame.expand VerificationType.resolve (.append [.top]) =
      .ok (wideEntry.showing [some .long, some .top, none, none]) := by
    decide +kernel
  obtain ⟨inBounds, beyond, _, _, chops, _⟩ :=
    snapshot_deltas_compose honest_resolve entered expanded
  obtain ⟨next, chopped, alsoShorter⟩ := chops [.top, .long] 1 _ (by decide) appended
  cases shorter.symm.trans alsoShorter
  exact ⟨entered, expanded, inBounds, beyond, _, _, appended, chopped, shorter, rfl⟩

end LocalTable.Frame
