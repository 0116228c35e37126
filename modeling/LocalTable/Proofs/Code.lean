import Mathlib.Data.List.Nodup
import LocalTable.Code

/-!
# Labels of code

A label is found where it is placed.  In code that places no label twice, a
label and its position determine each other, and the fresh label is beyond every
label that is placed.
-/

namespace LocalTable

theorem Instruction.label?_eq_some {instruction : Instruction} {label : Label} :
    instruction.label? = some label ↔ instruction = .label label := by
  constructor
  · intro placed
    cases instruction <;> simp [label?] at placed
    rw [placed]
  · rintro rfl
    rfl

namespace Code

theorem mem_labels {code : Code} {label : Label} {position : Nat} :
    (label, position) ∈ code.labels ↔
      code.instructions[position]? = some (.label label) := by
  simp only [labels, List.mem_filterMap, List.mem_zipIdx_iff_getElem?,
    Option.map_eq_some_iff, Prod.exists, Prod.mk.injEq, Array.getElem?_toList]
  constructor
  · rintro ⟨instruction, _, present, _, placed, rfl, rfl⟩
    rwa [Instruction.label?_eq_some.mp placed] at present
  · intro present
    exact ⟨.label label, position, present, label, rfl, rfl, rfl⟩

/-- Labels that the code places, in order. -/
def placedLabels (code : Code) : List Label :=
  code.labels.map Prod.fst

theorem mem_placedLabels {code : Code} {label : Label} :
    label ∈ code.placedLabels ↔
      ∃ position : Nat, code.instructions[position]? = some (.label label) := by
  simp [placedLabels, mem_labels]

/-- No label is placed twice. -/
def LabelsDistinct (code : Code) : Prop :=
  code.placedLabels.Nodup

instance (code : Code) : Decidable code.LabelsDistinct :=
  inferInstanceAs (Decidable code.placedLabels.Nodup)

theorem labels_pairwise (code : Code) :
    code.labels.Pairwise fun left right => left.2 < right.2 := by
  rw [labels, List.pairwise_filterMap]
  have ascending : code.instructions.toList.zipIdx.Pairwise
      fun left right => left.2 < right.2 := by
    rw [← List.pairwise_map, List.zipIdx_map_snd]
    exact List.pairwise_lt_range'
  refine ascending.imp ?_
  rintro ⟨_, left⟩ ⟨_, right⟩ before
  simp only [Option.map_eq_some_iff]
  rintro _ ⟨_, _, rfl⟩ _ ⟨_, _, rfl⟩
  exact before

/-- A label and its position determine each other. -/
theorem labelsDistinct_iff {code : Code} :
    code.LabelsDistinct ↔
      ∀ (label : Label) (left right : Nat),
        code.instructions[left]? = some (.label label) →
        code.instructions[right]? = some (.label label) → left = right := by
  constructor
  · intro distinct label left right inLeft inRight
    rw [← mem_labels] at inLeft inRight
    exact congrArg Prod.snd (List.inj_on_of_nodup_map distinct inLeft inRight rfl)
  · intro unique
    rw [LabelsDistinct, placedLabels, List.Nodup, List.pairwise_map]
    refine code.labels_pairwise.imp_of_mem ?_
    rintro ⟨first, left⟩ ⟨second, right⟩ inLeft inRight before rfl
    rw [mem_labels] at inLeft inRight
    exact absurd (unique first left right inLeft inRight) (Nat.ne_of_lt before)

theorem getElem?_of_position? {code : Code} {label : Label} {position : Nat}
    (found : code.position? label = some position) :
    code.instructions[position]? = some (.label label) := by
  simp only [position?, Option.map_eq_some_iff] at found
  obtain ⟨⟨same, _⟩, first, rfl⟩ := found
  have member := List.mem_of_find?_eq_some first
  have equal := List.find?_some first
  rw [beq_iff_eq] at equal
  rw [List.mem_reverse, mem_labels] at member
  rwa [← equal]

theorem position?_isSome {code : Code} {label : Label} {position : Nat}
    (placed : code.instructions[position]? = some (.label label)) :
    ∃ found, code.position? label = some found := by
  have member : (label, position) ∈ code.labels.reverse := by
    rwa [List.mem_reverse, mem_labels]
  have found : (code.labels.reverse.find? (·.1 == label)).isSome := by
    rw [List.find?_isSome]
    exact ⟨_, member, beq_self_eq_true label⟩
  obtain ⟨⟨_, found⟩, first⟩ := Option.isSome_iff_exists.mp found
  exact ⟨found, by simp [position?, first]⟩

/-- Where no label is placed twice, a label is found where it is placed. -/
theorem position?_eq_some {code : Code} (distinct : code.LabelsDistinct) {label : Label}
    {position : Nat} :
    code.position? label = some position ↔
      code.instructions[position]? = some (.label label) := by
  constructor
  · exact getElem?_of_position?
  · intro placed
    obtain ⟨found, first⟩ := position?_isSome placed
    rw [first, labelsDistinct_iff.mp distinct label found position
      (getElem?_of_position? first) placed]

theorem lt_freshLabel {code : Code} {label : Label} {position : Nat}
    (placed : code.instructions[position]? = some (.label label)) :
    label.number < code.freshLabel.number := by
  have bounded (pairs : List (Label × Nat)) (start : Label) :
      start.number ≤ (pairs.foldl (fun fresh pair =>
          ⟨max fresh.number pair.1.next.number⟩) start).number ∧
        ∀ pair ∈ pairs, pair.1.number < (pairs.foldl (fun fresh pair =>
          ⟨max fresh.number pair.1.next.number⟩) start).number := by
    induction pairs generalizing start with
    | nil => simp
    | cons pair rest ih =>
        obtain ⟨grows, covers⟩ := ih ⟨max start.number pair.1.next.number⟩
        simp only [Label.next] at grows covers ⊢
        refine ⟨by simpa using by omega, ?_⟩
        intro other member
        rcases List.mem_cons.mp member with rfl | later
        · simp only [List.foldl_cons]
          omega
        · exact covers other later
  exact (bounded code.labels ⟨0⟩).2 _ (mem_labels.mpr placed)

end Code

end LocalTable
