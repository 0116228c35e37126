import Mathlib.Data.List.Perm.Subperm
import Mathlib.Data.List.TakeWhile
import LocalTable.Proofs.Code
import LocalTable.Table

/-!
# Labels at boundaries

New labels are put between the instructions of a method.  The instructions keep
their order, and every boundary is marked by a label with exactly the real
instructions behind the boundary behind it: either by the first label that
stands among the pseudo-instructions around the boundary, or by a new label at
the boundary itself.  Labels stand in the order of the boundaries that they mark.
-/

namespace LocalTable

namespace Labelling

/-! ## Markers between instructions -/

section Weave

variable {α : Type}

/-- A list with markers before each of its elements and behind the last one. -/
def weave (marker : Nat → List α) : List α → List α
  | [] => marker 0
  | item :: rest => marker 0 ++ item :: weave (fun index => marker (index + 1)) rest

/-- Where the markers before an element begin. -/
def offset (marker : Nat → List α) : Nat → Nat
  | 0 => 0
  | index + 1 => offset marker index + (marker index).length + 1

/-- Where an element goes: behind its markers. -/
def place (marker : Nat → List α) (index : Nat) : Nat :=
  offset marker index + (marker index).length

theorem offset_succ (marker : Nat → List α) (index : Nat) :
    offset marker (index + 1) = place marker index + 1 := rfl

theorem offset_le_place (marker : Nat → List α) (index : Nat) :
    offset marker index ≤ place marker index :=
  Nat.le_add_right _ _

theorem offset_shift (marker : Nat → List α) (index : Nat) :
    offset marker (index + 1) =
      (marker 0).length + 1 + offset (fun index => marker (index + 1)) index := by
  induction index with
  | zero => simp [offset]
  | succ index ih =>
      rw [offset, ih, offset]
      omega

theorem offset_mono (marker : Nat → List α) {left right : Nat} (le : left ≤ right) :
    offset marker left ≤ offset marker right := by
  induction right with
  | zero =>
      obtain rfl : left = 0 := by omega
      exact Nat.le_refl _
  | succ right ih =>
      rcases Nat.eq_or_lt_of_le le with rfl | lt
      · exact Nat.le_refl _
      · have before := ih (by omega)
        have step := offset_succ marker right
        have within := offset_le_place marker right
        omega

theorem place_lt_offset (marker : Nat → List α) {left right : Nat} (lt : left < right) :
    place marker left < offset marker right := by
  have step := offset_succ marker left
  have mono := offset_mono marker (show left + 1 ≤ right from lt)
  omega

theorem place_lt_place (marker : Nat → List α) {left right : Nat} (lt : left < right) :
    place marker left < place marker right :=
  Nat.lt_of_lt_of_le (place_lt_offset marker lt) (offset_le_place marker right)

theorem place_le_place_iff (marker : Nat → List α) {left right : Nat} :
    place marker left ≤ place marker right ↔ left ≤ right := by
  constructor
  · intro le
    by_contra gt
    have := place_lt_place marker (show right < left by omega)
    omega
  · intro le
    rcases Nat.eq_or_lt_of_le le with rfl | lt
    · exact Nat.le_refl _
    · exact Nat.le_of_lt (place_lt_place marker lt)

theorem offset_le_place_iff (marker : Nat → List α) {boundary index : Nat} :
    offset marker boundary ≤ place marker index ↔ boundary ≤ index := by
  constructor
  · intro le
    by_contra gt
    have := place_lt_offset marker (show index < boundary by omega)
    omega
  · intro le
    exact Nat.le_trans (offset_mono marker le) (offset_le_place marker index)

/-- What a woven list holds: an element, or one of the markers. -/
theorem getElem?_weave_eq_some {marker : Nat → List α} {items : List α} {position : Nat}
    {found : α} :
    (weave marker items)[position]? = some found ↔
      (∃ index, items[index]? = some found ∧ position = place marker index) ∨
      (∃ index ≤ items.length, ∃ distance, (marker index)[distance]? = some found ∧
        position = offset marker index + distance) := by
  induction items generalizing marker position with
  | nil =>
      simp only [weave, List.getElem?_nil, List.length_nil, Nat.le_zero]
      constructor
      · intro present
        exact .inr ⟨0, rfl, position, present, by simp [offset]⟩
      · rintro (⟨_, absent, _⟩ | ⟨_, rfl, distance, present, rfl⟩)
        · contradiction
        · simpa [offset] using present
  | cons item rest ih =>
      have shift := offset_shift marker
      simp only [weave]
      rcases Nat.lt_trichotomy position (marker 0).length with lt | rfl | gt
      · rw [List.getElem?_append_left lt]
        constructor
        · intro present
          exact .inr ⟨0, Nat.zero_le _, position, present, by simp [offset]⟩
        · rintro (⟨index, _, rfl⟩ | ⟨index, _, distance, present, rfl⟩)
          · exact absurd lt (by
              have := (place_le_place_iff marker).mpr (Nat.zero_le index)
              simp only [place, offset] at this ⊢
              omega)
          · cases index with
            | zero => simpa [offset] using present
            | succ index =>
                rw [shift] at lt
                omega
      · rw [List.getElem?_append_right (Nat.le_refl _)]
        simp only [Nat.sub_self, List.getElem?_cons_zero]
        constructor
        · intro present
          exact .inl ⟨0, present, by simp [place, offset]⟩
        · rintro (⟨index, present, same⟩ | ⟨index, _, distance, present, same⟩)
          · cases index with
            | zero => exact present
            | succ index =>
                rw [place, shift] at same
                omega
          · cases index with
            | zero =>
                have inBounds := (List.getElem?_eq_some_iff.mp present).1
                simp only [offset] at same
                omega
            | succ index =>
                rw [shift] at same
                omega
      · obtain ⟨later, rfl⟩ := Nat.exists_eq_add_of_lt gt
        rw [List.getElem?_append_right (by omega),
          show (marker 0).length + later + 1 - (marker 0).length = later + 1 by omega,
          List.getElem?_cons_succ, ih]
        constructor
        · rintro (⟨index, present, rfl⟩ | ⟨index, inBounds, distance, present, rfl⟩)
          · exact .inl ⟨index + 1, present, by simp only [place, shift]; omega⟩
          · exact .inr ⟨index + 1, by simpa using inBounds, distance, present,
              by rw [shift]; omega⟩
        · rintro (⟨index, present, same⟩ | ⟨index, inBounds, distance, present, same⟩)
          · cases index with
            | zero =>
                simp only [place, offset] at same
                omega
            | succ index =>
                refine .inl ⟨index, present, ?_⟩
                simp only [place, shift] at same ⊢
                omega
          · cases index with
            | zero =>
                have inBounds := (List.getElem?_eq_some_iff.mp present).1
                simp only [offset] at same
                omega
            | succ index =>
                refine .inr ⟨index, by simpa using inBounds, distance, present, ?_⟩
                rw [shift] at same
                omega

/-- Without the markers, a woven list is the list again, each element at its
place. -/
theorem filter_zipIdx_weave {marker : Nat → List α} {items : List α} {kept : α → Bool}
    (dropped : ∀ index, ∀ mark ∈ marker index, kept mark = false)
    (keeps : ∀ item ∈ items, kept item = true) (start : Nat) :
    ((weave marker items).zipIdx start).filter (fun pair => kept pair.1) =
      items.zipIdx.map fun (item, index) => (item, start + place marker index) := by
  induction items generalizing marker start with
  | nil =>
      simp only [weave, List.zipIdx_nil, List.map_nil, List.filter_eq_nil_iff]
      rintro ⟨mark, index⟩ member
      simp [dropped 0 mark (List.fst_mem_of_mem_zipIdx member)]
  | cons item rest ih =>
      have none : ((marker 0).zipIdx start).filter (fun pair => kept pair.1) = [] := by
        rw [List.filter_eq_nil_iff]
        rintro ⟨mark, index⟩ member
        simp [dropped 0 mark (List.fst_mem_of_mem_zipIdx member)]
      rw [weave, List.zipIdx_append, List.filter_append, none, List.nil_append,
        List.zipIdx_cons, List.filter_cons_of_pos (by exact keeps item (by simp)),
        ih (fun index => dropped (index + 1))
          (fun item member => keeps item (by simp [member]))]
      rw [List.zipIdx_cons, List.map_cons, List.zipIdx_succ, List.map_map]
      congr 1
      · simp [place, offset]
      · refine List.map_congr_left fun pair _ => ?_
        simp only [Function.comp_apply, place, offset_shift marker]
        congr 1
        omega

end Weave

/-! ## Labels around a boundary -/

/-- Do only pseudo-instructions stand between a boundary and a position, the
position itself included? -/
def InRun (instructions : Array Instruction) (boundary position : Nat) : Prop :=
  ∀ (between : Nat) (instruction : Instruction),
    instructions[between]? = some instruction →
    (position ≤ between ∧ between < boundary ∨ boundary ≤ between ∧ between ≤ position) →
    instruction.isPseudo = true

/-- Code is cut at a boundary into a run of pseudo-instructions around it and what
stands before and behind the run. -/
theorem exists_split (instructions : Array Instruction) {boundary : Nat}
    (inBounds : boundary ≤ instructions.size) :
    ∃ front run rest : List Instruction,
      instructions.toList = front ++ (run ++ rest) ∧
      front.length ≤ boundary ∧ boundary ≤ front.length + run.length ∧
      (∀ instruction ∈ run, instruction.isPseudo = true) ∧
      (∀ instruction, front.getLast? = some instruction → instruction.isPseudo = false) ∧
      (∀ instruction, rest.head? = some instruction → instruction.isPseudo = false) ∧
      existing? instructions boundary = run.findSome? Instruction.label? := by
  let before := (instructions.toList.take boundary).reverse
  let after := instructions.toList.drop boundary
  refine ⟨(before.dropWhile Instruction.isPseudo).reverse,
    (before.takeWhile Instruction.isPseudo).reverse ++
      after.takeWhile Instruction.isPseudo,
    after.dropWhile Instruction.isPseudo, ?_, ?_, ?_, ?_, ?_, ?_, rfl⟩
  · have front : (before.dropWhile Instruction.isPseudo).reverse ++
        (before.takeWhile Instruction.isPseudo).reverse =
            instructions.toList.take boundary := by
      rw [← List.reverse_append, List.takeWhile_append_dropWhile, List.reverse_reverse]
    rw [List.append_assoc, List.takeWhile_append_dropWhile, ← List.append_assoc, front,
      List.take_append_drop]
  · have shorter := (List.dropWhile_sublist Instruction.isPseudo (l := before)).length_le
    have bounded : before.length ≤ boundary := by
      rw [List.length_reverse, List.length_take]
      exact Nat.min_le_left _ _
    rw [List.length_reverse]
    exact Nat.le_trans shorter bounded
  · have whole := congrArg List.length
      (List.takeWhile_append_dropWhile (p := Instruction.isPseudo) (l := before))
    have length : before.length = boundary := by
      rw [List.length_reverse, List.length_take, Array.length_toList]
      omega
    simp only [List.length_append, List.length_reverse] at whole ⊢
    omega
  · intro instruction member
    rcases List.mem_append.mp member with inBefore | inAfter
    · exact List.mem_takeWhile_imp (List.mem_reverse.mp inBefore)
    · exact List.mem_takeWhile_imp inAfter
  · intro instruction last
    rw [List.getLast?_reverse] at last
    have stops := List.head?_dropWhile_not Instruction.isPseudo before
    rwa [last] at stops
  · intro instruction head
    have stops := List.head?_dropWhile_not Instruction.isPseudo after
    rwa [head] at stops

/-- The run around a boundary is where a label is looked for, and it takes in
every position that only pseudo-instructions divide from the boundary. -/
theorem exists_run (instructions : Array Instruction) {boundary : Nat}
    (inBounds : boundary ≤ instructions.size) :
    ∃ front run rest : List Instruction,
      instructions.toList = front ++ (run ++ rest) ∧
      (∀ position, front.length ≤ position → position < front.length + run.length →
        InRun instructions boundary position) ∧
      (∀ position, position < instructions.size → InRun instructions boundary position →
        front.length ≤ position ∧ position < front.length + run.length) ∧
      existing? instructions boundary = run.findSome? Instruction.label? := by
  obtain ⟨front, run, rest, split, lower, upper, pseudo, frontStops, restStops, lookup⟩ :=
    exists_split instructions inBounds
  have at? (index : Nat) : instructions[index]? = (front ++ (run ++ rest))[index]? := by
    rw [← split, Array.getElem?_toList]
  have length := congrArg List.length split
  simp only [Array.length_toList, List.length_append] at length
  refine ⟨front, run, rest, split, ?_, ?_, lookup⟩
  · intro position afterFront beforeRest between instruction present bounds
    rw [at?, List.getElem?_append_right (by omega),
      List.getElem?_append_left (by omega)] at present
    exact pseudo _ (List.mem_of_getElem? present)
  · intro position present inRun
    constructor
    · -- The instruction before the run is real, so nothing before it is in the run.
      by_contra outside
      have inFront : front.length - 1 < front.length := by omega
      have last : front.getLast? = some (front[front.length - 1]) := by
        rw [List.getLast?_eq_getElem?, List.getElem?_eq_getElem inFront]
      have real : instructions[front.length - 1]? = some (front[front.length - 1]) := by
        rw [at?, List.getElem?_append_left inFront, List.getElem?_eq_getElem inFront]
      have := inRun _ _ real (.inl (by omega))
      rw [frontStops _ last] at this
      contradiction
    · by_contra beyond
      have inRest : 0 < rest.length := by omega
      have head : rest.head? = some rest[0] := by
        rw [List.head?_eq_getElem?, List.getElem?_eq_getElem inRest]
      have real : instructions[front.length + run.length]? = some rest[0] := by
        rw [at?, List.getElem?_append_right (by omega),
          List.getElem?_append_right (by omega), ← List.getElem?_eq_getElem inRest]
        congr 1
        omega
      have := inRun _ _ real (.inr (by omega))
      rw [restStops _ head] at this
      contradiction

/-- The label at a boundary is the first one in the run around it. -/
theorem exists_of_existing? {instructions : Array Instruction} {boundary : Nat}
    {label : Label} (inBounds : boundary ≤ instructions.size)
    (found : existing? instructions boundary = some label) :
    ∃ position : Nat, instructions[position]? = some (.label label) ∧
      InRun instructions boundary position ∧
      ∀ earlier instruction, earlier < position → InRun instructions boundary earlier →
        instructions[earlier]? = some instruction → instruction.label? = none := by
  obtain ⟨front, run, rest, split, covers, covered, lookup⟩ :=
    exists_run instructions inBounds
  rw [lookup, List.findSome?_eq_some_iff] at found
  obtain ⟨unlabelled, marker, following, rfl, placed, first⟩ := found
  rw [Instruction.label?_eq_some] at placed
  subst placed
  have at? (index : Nat) : instructions[index]? =
      (front ++ (unlabelled ++ .label label :: following ++ rest))[index]? := by
    rw [← split, Array.getElem?_toList]
  refine ⟨front.length + unlabelled.length, ?_, ?_, ?_⟩
  · rw [at?, List.getElem?_append_right (by omega)]
    simp
  · refine covers _ (by omega) ?_
    simp only [List.length_append, List.length_cons]
    omega
  · intro earlier instruction before inRun present
    have inside := (covered earlier (Array.getElem?_eq_some_iff.mp present).1 inRun).1
    rw [at?, List.getElem?_append_right inside, List.append_assoc,
      List.getElem?_append_left (by omega)] at present
    exact first _ (List.mem_of_getElem? present)

/-- Without a label at a boundary, there is none in the run around it. -/
theorem label?_eq_none_of_existing? {instructions : Array Instruction}
    {boundary position : Nat} {instruction : Instruction}
    (inBounds : boundary ≤ instructions.size)
    (missing : existing? instructions boundary = none)
    (inRun : InRun instructions boundary position)
    (present : instructions[position]? = some instruction) :
    instruction.label? = none := by
  obtain ⟨front, run, rest, split, _, covered, lookup⟩ := exists_run instructions inBounds
  rw [lookup, List.findSome?_eq_none_iff] at missing
  have inside := covered position (Array.getElem?_eq_some_iff.mp present).1 inRun
  rw [← Array.getElem?_toList, split, List.getElem?_append_right inside.1,
    List.getElem?_append_left (by omega)] at present
  exact missing _ (List.mem_of_getElem? present)

/-! ## Labels that are placed -/

/-- The label that marks a boundary: one that stands there, or one that is
placed there. -/
def labelOf? (instructions : Array Instruction) (labelling : Labelling) (boundary : Nat) :
    Option Label :=
  (existing? instructions boundary).or (labelling.placed.lookup boundary)

/-- The labels to be placed are new, one for each boundary. -/
structure Fresh (code : Code) (labelling : Labelling) : Prop where
  fresh_le : code.freshLabel.number ≤ labelling.free.number
  isFresh : ∀ {boundary : Nat} {label : Label},
    labelling.placed.lookup boundary = some label →
      code.freshLabel.number ≤ label.number ∧ label.number < labelling.free.number
  injective : ∀ {left right : Nat} {label : Label},
    labelling.placed.lookup left = some label →
    labelling.placed.lookup right = some label → left = right

/-- The labels to be placed are new, one for each boundary, and all of them find a place
in the code. -/
structure Valid (code : Code)
    (labelling : Labelling) : Prop extends Fresh code labelling where
  inBounds : ∀ {boundary : Nat} {label : Label},
    labelling.placed.lookup boundary = some label → boundary ≤ code.instructions.size

theorem Fresh.not_standing {code : Code} {labelling : Labelling} {boundary index : Nat}
    {label : Label} (fresh : Fresh code labelling)
    (placed : labelling.placed.lookup boundary = some label) :
    code.instructions[index]? ≠ some (.label label) := by
  intro stands
  have below := Code.lt_freshLabel stands
  have above := (fresh.isFresh placed).1
  omega

/-- Every boundary keeps its label. -/
def Extends (earlier later : Labelling) : Prop :=
  ∀ (boundary : Nat) (label : Label),
    earlier.placed.lookup boundary = some label →
      later.placed.lookup boundary = some label

theorem Extends.trans {first second third : Labelling} (left : Extends first second)
    (right : Extends second third) : Extends first third :=
  fun boundary label placed => right boundary label (left boundary label placed)

theorem Extends.labelOf? {instructions : Array Instruction} {earlier later : Labelling}
    (grown : Extends earlier later) {boundary : Nat} {label : Label}
    (marked : earlier.labelOf? instructions boundary = some label) :
    later.labelOf? instructions boundary = some label := by
  rw [Labelling.labelOf?, Option.or_eq_some_iff] at marked ⊢
  exact marked.imp_right fun ⟨missing, placed⟩ => ⟨missing, grown boundary label placed⟩

theorem valid_start (code : Code) : Valid code ⟨code.freshLabel, []⟩ where
  fresh_le := Nat.le_refl _
  inBounds := by simp
  isFresh := by simp
  injective := by simp

theorem lookup_place (boundary : Nat) (label : Label) (placed : List (Nat × Label))
    (other : Nat) :
    ((boundary, label) :: placed).lookup other =
      if other = boundary then some label else placed.lookup other := by
  rw [List.lookup_cons]
  split <;> simp_all

/-- A label that has to be placed is a new one. -/
theorem Fresh.labelAt {code : Code} {labelling marked : Labelling} {boundary : Nat}
    {label : Label} (fresh : Fresh code labelling)
    (asked : labelling.labelAt code.instructions boundary = (label, marked)) :
    Fresh code marked := by
  unfold Labelling.labelAt at asked
  split at asked
  · cases asked
    exact fresh
  · split at asked
    · cases asked
      exact fresh
    · cases asked
      refine ⟨Nat.le_succ_of_le fresh.fresh_le, ?_, ?_⟩
      · intro other found marks
        rw [lookup_place] at marks
        split at marks
        · cases marks
          exact ⟨fresh.fresh_le, Nat.lt_succ_self _⟩
        · have bounds := fresh.isFresh marks
          exact ⟨bounds.1, Nat.lt_succ_of_lt bounds.2⟩
      · intro left right found marksLeft marksRight
        rw [lookup_place] at marksLeft marksRight
        split at marksLeft <;> split at marksRight
        · simp_all
        · cases marksLeft
          exact absurd (fresh.isFresh marksRight).2 (Nat.lt_irrefl _)
        · cases marksRight
          exact absurd (fresh.isFresh marksLeft).2 (Nat.lt_irrefl _)
        · exact fresh.injective marksLeft marksRight

/-- As many labels are to be placed as numbers have been given out, at boundaries of the
code that are all different. -/
structure Counted (code : Code) (labelling : Labelling) : Prop where
  free_eq : labelling.free.number = code.freshLabel.number + labelling.placed.length
  nodup : (labelling.placed.map Prod.fst).Nodup
  inBounds : ∀ boundary ∈ labelling.placed.map Prod.fst, boundary ≤ code.instructions.size

theorem counted_start (code : Code) : Counted code ⟨code.freshLabel, []⟩ :=
  ⟨rfl, .nil, nofun⟩

theorem Counted.labelAt {code : Code} {labelling : Labelling} {boundary : Nat}
    (counted : Counted code labelling) (inBounds : boundary ≤ code.instructions.size) :
    Counted code (labelling.labelAt code.instructions boundary).2 := by
  unfold Labelling.labelAt
  split
  next => exact counted
  next =>
    split
    next => exact counted
    next unplaced =>
      have isNew : boundary ∉ labelling.placed.map Prod.fst := by
        rintro member
        obtain ⟨placed, isPlaced, rfl⟩ := List.mem_map.mp member
        simpa using List.lookup_eq_none_iff.mp unplaced placed isPlaced
      refine ⟨?_, List.nodup_cons.mpr ⟨isNew, counted.nodup⟩,
        List.forall_mem_cons.mpr ⟨inBounds, counted.inBounds⟩⟩
      simp only [Label.next, counted.free_eq, List.length_cons, Nat.add_assoc]

/-- No more labels are placed than there are boundaries. -/
theorem Counted.free_le {code : Code} {labelling : Labelling}
    (counted : Counted code labelling) :
    labelling.free.number ≤ code.freshLabel.number + code.instructions.size + 1 := by
  have subset : labelling.placed.map Prod.fst ⊆ List.range (code.instructions.size + 1) :=
    fun boundary member => List.mem_range.mpr
      (Nat.lt_succ_of_le (counted.inBounds _ member))
  have length_le := (counted.nodup.subperm subset).length_le
  rw [List.length_map, List.length_range] at length_le
  rw [counted.free_eq, Nat.add_assoc]
  exact Nat.add_le_add_left length_le _

/-- Asking for the label of a boundary marks the boundary, and keeps all other
marks. -/
theorem labelAt_spec {code : Code} {labelling marked : Labelling} {boundary : Nat}
    {label : Label} (valid : Valid code labelling)
    (inBounds : boundary ≤ code.instructions.size)
    (asked : labelling.labelAt code.instructions boundary = (label, marked)) :
    Valid code marked ∧ Extends labelling marked ∧
      marked.labelOf? code.instructions boundary = some label := by
  have fresh := valid.toFresh.labelAt asked
  unfold labelAt at asked
  split at asked
  next stands =>
    cases asked
    exact ⟨valid, fun _ _ => id, by simp [labelOf?, stands]⟩
  next missing =>
    split at asked
    next placed =>
      cases asked
      exact ⟨valid, fun _ _ => id, by simp [labelOf?, missing, placed]⟩
    next unplaced =>
      cases asked
      refine ⟨⟨fresh, ?_⟩, ?_, ?_⟩
      · intro other found marks
        rw [lookup_place] at marks
        split at marks
        · simp_all
        · exact valid.inBounds marks
      · intro other found marks
        rw [lookup_place]
        split
        next same =>
          rw [same, unplaced] at marks
          contradiction
        next => exact marks
      · simp [labelOf?, missing]

/-- The labels before a position. -/
def marker (labelling : Labelling) (position : Nat) : List Instruction :=
  ((labelling.placed.lookup position).map Instruction.label).toList

theorem toList_insertInto (labelling : Labelling) (instructions : Array Instruction) :
    (labelling.insertInto instructions).toList =
      weave labelling.marker instructions.toList := by
  have unfolded (items : List Instruction) (start : Nat) :
      (items.zipIdx start).flatMap (fun pair => labelling.marker pair.2 ++ [pair.1]) ++
          labelling.marker (start + items.length) =
        weave (fun index => labelling.marker (start + index)) items := by
    induction items generalizing start with
    | nil => simp [weave]
    | cons item rest ih =>
        have following := ih (start + 1)
        simp only [List.length_cons, weave, List.zipIdx_cons, List.flatMap_cons,
          List.append_assoc, List.nil_append, List.cons_append, Nat.add_zero,
          Nat.add_assoc, Nat.add_comm 1] at following ⊢
        rw [following]
  have woven := unfolded instructions.toList 0
  simp only [Nat.zero_add, Array.length_toList] at woven
  exact woven

/-- The labels that find a place in code of the given size. -/
def clip (labelling : Labelling) (size : Nat) : Labelling :=
  { labelling with placed := labelling.placed.filter (·.1 ≤ size) }

theorem lookup_clip (labelling : Labelling) (size boundary : Nat) :
    (labelling.clip size).placed.lookup boundary =
      if boundary ≤ size then labelling.placed.lookup boundary else none := by
  obtain ⟨free, placed⟩ := labelling
  unfold clip
  induction placed with
  | nil => simp
  | cons first rest ih =>
      obtain ⟨position, label⟩ := first
      dsimp only at ih ⊢
      rw [List.filter_cons]
      split
      next inside =>
        rw [lookup_place, lookup_place, ih]
        split
        next same => rw [if_pos (same ▸ of_decide_eq_true inside)]
        next => rfl
      next outside =>
        rw [ih, lookup_place]
        split
        next within =>
          rw [if_neg]
          rintro rfl
          exact outside (decide_eq_true within)
        next => rfl

theorem Fresh.valid_clip {code : Code} {labelling : Labelling}
    (fresh : Fresh code labelling) :
    (labelling.clip code.instructions.size).Valid code := by
  have looked {boundary : Nat} {label : Label}
      (found : (labelling.clip code.instructions.size).placed.lookup
        boundary = some label) :
      boundary ≤ code.instructions.size ∧
          labelling.placed.lookup boundary = some label := by
    rw [lookup_clip] at found
    split at found
    next inside => exact ⟨inside, found⟩
    next => cases found
  exact ⟨⟨fresh.fresh_le, fun found => fresh.isFresh (looked found).2,
    fun left right => fresh.injective (looked left).2 (looked right).2⟩,
    fun found => (looked found).1⟩

/-- Labels beyond the end of the code are not placed. -/
theorem insertInto_clip (labelling : Labelling) (instructions : Array Instruction) :
    (labelling.clip instructions.size).insertInto instructions =
      labelling.insertInto instructions := by
  have same {position : Nat} (inside : position ≤ instructions.size) :
      (labelling.clip instructions.size).placed.lookup position =
        labelling.placed.lookup position := by
    rw [lookup_clip, if_pos inside]
  unfold insertInto
  dsimp only
  rw [same (Nat.le_refl _)]
  congr 2
  refine List.flatMap_congr fun pair member => ?_
  obtain ⟨isLess, _⟩ := List.mem_zipIdx' member
  rw [same (Nat.le_of_lt (by simpa using isLess))]

theorem getElem?_insertInto {labelling : Labelling} {instructions : Array Instruction}
    {position : Nat} {found : Instruction} :
    (labelling.insertInto instructions)[position]? = some found ↔
      (∃ index : Nat, instructions[index]? = some found ∧
        position = place labelling.marker index) ∨
      (∃ boundary ≤ instructions.size, ∃ label,
        labelling.placed.lookup boundary = some label ∧
        found = .label label ∧ position = offset labelling.marker boundary) := by
  rw [← Array.getElem?_toList, toList_insertInto, getElem?_weave_eq_some]
  simp only [Array.getElem?_toList, Array.length_toList]
  refine or_congr_right (exists_congr fun boundary => and_congr_right fun _ => ?_)
  cases placed : labelling.placed.lookup boundary with
  | none => simp [marker, placed]
  | some label =>
      simp only [marker, placed, Option.map_some, Option.toList_some]
      constructor
      · rintro ⟨distance, present, rfl⟩
        cases distance with
        | zero => exact ⟨label, rfl, by simpa using present.symm, rfl⟩
        | succ distance => simp at present
      · rintro ⟨_, ⟨⟩, rfl, rfl⟩
        exact ⟨0, rfl, rfl⟩

/-- The position of the label that marks a boundary. -/
inductive MarkedAt (code : Code) (labelling : Labelling) (boundary : Nat)
    (label : Label) :
    Nat → Prop where
  /-- A label of the code, the first one in the run around the boundary. -/
  | standing (index : Nat) (placed : code.instructions[index]? = some (.label label))
      (inRun : InRun code.instructions boundary index)
      (first : ∀ (earlier : Nat) (instruction : Instruction), earlier < index →
        InRun code.instructions boundary earlier →
        code.instructions[earlier]? = some instruction → instruction.label? = none) :
      MarkedAt code labelling boundary label (place labelling.marker index)
  /-- A new label, where no other one stands. -/
  | added (missing : existing? code.instructions boundary = none)
      (placed : labelling.placed.lookup boundary = some label) :
      MarkedAt code labelling boundary label (offset labelling.marker boundary)

section MarkedAt

variable {code : Code} {labelling : Labelling} {boundary position : Nat} {label : Label}

theorem exists_markedAt (inBounds : boundary ≤ code.instructions.size)
    (marked : labelling.labelOf? code.instructions boundary = some label) :
    ∃ position, MarkedAt code labelling boundary label position := by
  rw [labelOf?, Option.or_eq_some_iff] at marked
  rcases marked with stands | ⟨missing, placed⟩
  · obtain ⟨index, placed, inRun, first⟩ := exists_of_existing? inBounds stands
    exact ⟨_, .standing index placed inRun first⟩
  · exact ⟨_, .added missing placed⟩

theorem MarkedAt.getElem? (valid : Valid code labelling)
    (marked : MarkedAt code labelling boundary label position) :
    (labelling.insertInto code.instructions)[position]? = some (.label label) := by
  rw [getElem?_insertInto]
  cases marked with
  | standing index placed => exact .inl ⟨index, placed, rfl⟩
  | added _ placed =>
      exact .inr ⟨boundary, valid.inBounds placed, label, placed, rfl, rfl⟩

/-- Seen from the label of a boundary, a real instruction lies behind exactly if
it lies behind the boundary. -/
theorem MarkedAt.le_place_iff (marked : MarkedAt code labelling boundary label position)
    {index : Nat} {instruction : Instruction}
    (present : code.instructions[index]? = some instruction)
    (real : instruction.isPseudo = false) :
    position ≤ place labelling.marker index ↔ boundary ≤ index := by
  cases marked with
  | standing stands placed inRun =>
      rw [place_le_place_iff]
      have notBetween := fun bounds =>
        Bool.false_ne_true (real.symm.trans (inRun _ _ present bounds))
      constructor
      · intro le
        by_contra before
        exact notBetween (.inl ⟨le, by omega⟩)
      · intro le
        by_contra before
        exact notBetween (.inr ⟨le, by omega⟩)
  | added => exact offset_le_place_iff _

/-- Labels stand in the order of their boundaries. -/
theorem MarkedAt.mono {laterBoundary laterPosition : Nat} {laterLabel : Label}
    (le : boundary ≤ laterBoundary)
    (laterInBounds : laterBoundary ≤ code.instructions.size)
    (marked : MarkedAt code labelling boundary label position)
    (laterMarked : MarkedAt code labelling laterBoundary laterLabel laterPosition) :
    position ≤ laterPosition := by
  have inBounds : boundary ≤ code.instructions.size := Nat.le_trans le laterInBounds
  cases marked with
  | standing index placed inRun first =>
      cases laterMarked with
      | standing laterIndex laterPlaced laterInRun _ =>
          rw [place_le_place_iff]
          by_contra before
          -- The later label would also be in the run of the earlier boundary.
          have inSameRun : InRun code.instructions boundary laterIndex := by
            intro between instruction present bounds
            rcases bounds with ⟨lower, upper⟩ | ⟨lower, upper⟩
            · exact laterInRun between instruction present (.inl ⟨lower, by omega⟩)
            · exact inRun between instruction present (.inr ⟨lower, by omega⟩)
          have := first laterIndex _ (by omega) inSameRun laterPlaced
          contradiction
      | added missing _ =>
          refine Nat.le_of_lt (place_lt_offset _ ?_)
          by_contra notBefore
          have inLaterRun : InRun code.instructions laterBoundary index := by
            intro between instruction present bounds
            exact inRun between instruction present (.inr (by omega))
          have := label?_eq_none_of_existing? laterInBounds missing inLaterRun placed
          contradiction
  | added missing _ =>
      cases laterMarked with
      | standing laterIndex laterPlaced laterInRun _ =>
          rw [offset_le_place_iff]
          by_contra before
          have inEarlierRun : InRun code.instructions boundary laterIndex := by
            intro between instruction present bounds
            exact laterInRun between instruction present (.inl (by omega))
          have := label?_eq_none_of_existing? inBounds missing inEarlierRun laterPlaced
          contradiction
      | added => exact offset_mono _ le

/-- Two boundaries share their label exactly if only pseudo-instructions stand between
them, and a label stands among these or next to them. -/
theorem MarkedAt.eq_iff {laterBoundary laterPosition : Nat} {laterLabel : Label}
    (valid : Valid code labelling) (lt : boundary < laterBoundary)
    (laterInBounds : laterBoundary ≤ code.instructions.size)
    (marked : MarkedAt code labelling boundary label position)
    (laterMarked : MarkedAt code labelling laterBoundary laterLabel laterPosition) :
    position = laterPosition ↔ InRun code.instructions laterBoundary boundary ∧
      existing? code.instructions boundary ≠ none := by
  have inBounds : boundary ≤ code.instructions.size :=
    Nat.le_of_lt (Nat.lt_of_lt_of_le lt laterInBounds)
  have ordered := marked.mono (Nat.le_of_lt lt) laterInBounds laterMarked
  constructor
  · intro same
    have sameLabel := (marked.getElem? valid).symm.trans
      (same ▸ laterMarked.getElem? valid)
    cases sameLabel
    cases marked with
    | standing index placed inRun first =>
        refine ⟨?_, fun missing => ?_⟩
        · cases laterMarked with
          | standing laterIndex laterPlaced laterInRun =>
              have isBefore := (place_le_place_iff _).mp (Nat.le_of_eq same.symm)
              intro between instruction present bounds
              by_cases before : between ≤ index
              · exact inRun between instruction present (.inr ⟨by omega, before⟩)
              · exact laterInRun between instruction present (.inl ⟨by omega, by omega⟩)
          | added _ laterPlaced => exact absurd placed (valid.not_standing laterPlaced)
        · cases label?_eq_none_of_existing? inBounds missing inRun placed
    | added _ placed =>
        cases laterMarked with
        | standing laterIndex laterPlaced =>
            exact absurd laterPlaced (valid.not_standing placed)
        | added _ laterPlaced =>
            exact absurd (valid.injective placed laterPlaced) (Nat.ne_of_lt lt)
  · rintro ⟨isRun, stands⟩
    cases marked with
    | added missing => exact absurd missing stands
    | standing index placed inRun first =>
        have inLaterRun : InRun code.instructions laterBoundary index := by
          intro between instruction present bounds
          by_cases before : between < boundary
          · exact inRun between instruction present (.inl ⟨by omega, before⟩)
          · by_cases within : between < laterBoundary
            · exact isRun between instruction present (.inl ⟨by omega, within⟩)
            · exact inRun between instruction present (.inr ⟨by omega, by omega⟩)
        refine Nat.le_antisymm ordered ?_
        cases laterMarked with
        | added missing =>
            cases label?_eq_none_of_existing? laterInBounds missing inLaterRun placed
        | standing laterIndex laterPlaced laterInRun laterFirst =>
            rw [place_le_place_iff]
            by_contra before
            cases laterFirst index _ (by omega) inLaterRun placed

end MarkedAt

end Labelling

end LocalTable
