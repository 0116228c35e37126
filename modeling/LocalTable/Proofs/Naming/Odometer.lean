import Mathlib.Algebra.BigOperators.Intervals
import Mathlib.Data.List.Shortlex
import LocalTable.Proofs.Naming

/-!
# The names of an odometer

The wheels of an odometer are the digits of a numeral, the lowest one first.  The digits
count from one, so a wheel that is added is never worth nothing, and every name has a
place of its own: from `i` on, `i` is the first name, `h` is the 26th and `ii` the 27th.

Turning the wheels adds one to the place.  Names of later places are longer, or come
later in the alphabet that begins with the start.  So the odometer goes through all
names, each once and in order.
-/

namespace LocalTable.Naming.Odometer

variable {start letter : Char} {left right wheels : List Char}

/-! ## Letters -/

theorem toNat_of_isLower (lower : letter.isLower = true) :
    97 ≤ letter.toNat ∧ letter.toNat ≤ 122 := by
  obtain ⟨least, most⟩ := Bool.and_eq_true_iff.mp lower
  exact ⟨of_decide_eq_true least, of_decide_eq_true most⟩

theorem toNat_nextLetter (lower : letter.isLower = true) :
    (nextLetter letter).toNat = if letter.toNat = 122 then 97 else letter.toNat + 1 := by
  obtain ⟨_, most⟩ := toNat_of_isLower lower
  unfold nextLetter
  by_cases isLast : letter = 'z'
  · subst isLast
    rfl
  · have notLast : letter.toNat ≠ 122 := fun same => isLast (Char.toNat_inj.mp same)
    rw [if_neg isLast, if_neg notLast]
    have valid : (letter.toNat + 1).isValidChar := .inl (by omega)
    have isNext : Char.ofNat (letter.toNat + 1) =
        Char.ofNatAux (letter.toNat + 1) valid :=
      dif_pos valid
    rw [isNext]
    rfl

/-- How far a letter is behind the start, in the alphabet that goes on with `a` behind
`z`. -/
def rank (start letter : Char) : Nat :=
  (letter.toNat + 26 - start.toNat) % 26

/-- The first letter comes before the second one in the alphabet that begins with the
start. -/
def Before (start left right : Char) : Prop :=
  rank start left < rank start right

theorem rank_start (start : Char) : rank start start = 0 := by
  rw [rank, Nat.add_sub_cancel_left]

theorem rank_lt (start letter : Char) : rank start letter < 26 :=
  Nat.mod_lt _ (by decide)

theorem eq_of_rank_eq {other : Char} (isStart : start.isLower = true)
    (lower : letter.isLower = true) (otherLower : other.isLower = true)
    (same : rank start letter = rank start other) : letter = other := by
  have startBounds := toNat_of_isLower isStart
  have bounds := toNat_of_isLower lower
  have otherBounds := toNat_of_isLower otherLower
  unfold rank at same
  apply Char.toNat_inj.mp
  omega

/-- A wheel that comes round was at the last letter. -/
theorem rank_of_nextLetter_eq (isStart : start.isLower = true)
    (lower : letter.isLower = true) (isRound : nextLetter letter = start) :
    rank start letter = 25 := by
  have startBounds := toNat_of_isLower isStart
  have bounds := toNat_of_isLower lower
  have next := toNat_nextLetter lower
  rw [isRound] at next
  unfold rank
  split at next <;> omega

/-- A wheel that does not come round goes one letter on. -/
theorem rank_nextLetter (isStart : start.isLower = true) (lower : letter.isLower = true)
    (goesOn : nextLetter letter ≠ start) :
    rank start (nextLetter letter) = rank start letter + 1 := by
  have startBounds := toNat_of_isLower isStart
  have bounds := toNat_of_isLower lower
  have next := toNat_nextLetter lower
  have different : (nextLetter letter).toNat ≠ start.toNat :=
    fun same => goesOn (Char.toNat_inj.mp same)
  unfold rank
  split at next <;> omega

/-! ## Places of names -/

/-- The place, counted from one, of the name on the wheels. -/
def place (start : Char) : List Char → Nat
  | [] => 0
  | letter :: rest => rank start letter + 1 + 26 * place start rest

/-- Turning the wheels leads to the next place. -/
theorem place_turn (isStart : start.isLower = true)
    (lower : ∀ letter ∈ wheels, letter.isLower = true) :
    place start (turn start wheels) = place start wheels + 1 := by
  induction wheels with
  | nil => simp [turn, place, rank_start]
  | cons letter rest ih =>
      obtain ⟨isLetter, restLower⟩ := List.forall_mem_cons.mp lower
      unfold turn
      split
      next isRound =>
        -- The wheel goes from its last number back to its first one, and the carry adds
        -- 26.
        rw [place, place, rank_start,
          rank_of_nextLetter_eq isStart isLetter isRound, ih restLower]
        omega
      next goesOn =>
        rw [place, place, rank_nextLetter isStart isLetter goesOn]
        omega

/-- Wheels that show names of one place show the same name. -/
theorem eq_of_place_eq (isStart : start.isLower = true)
    (leftLower : ∀ letter ∈ left, letter.isLower = true)
    (rightLower : ∀ letter ∈ right, letter.isLower = true)
    (same : place start left = place start right) : left = right := by
  induction left generalizing right with
  | nil =>
      cases right with
      | nil => rfl
      | cons letter rest =>
          unfold place at same
          omega
  | cons letter rest ih =>
      cases right with
      | nil =>
          unfold place at same
          omega
      | cons other others =>
          obtain ⟨isLetter, restLower⟩ := List.forall_mem_cons.mp leftLower
          obtain ⟨isOther, othersLower⟩ := List.forall_mem_cons.mp rightLower
          have bound := rank_lt start letter
          have otherBound := rank_lt start other
          rw [place, place] at same
          rw [eq_of_rank_eq isStart isLetter isOther (by omega),
            ih restLower othersLower (by omega)]

/-- What decides between two lists of one length decides whatever follows them. -/
theorem lex_append {r : Char → Char → Prop} (length_eq : left.length = right.length)
    (before : List.Lex r left right) (after other : List Char) :
    List.Lex r (left ++ after) (right ++ other) := by
  induction before with
  | nil => cases length_eq
  | cons _ ih => exact .cons (ih (Nat.succ.inj length_eq))
  | rel less => exact .rel less

/-- The name of a later place is longer, or as long and later in the alphabet. -/
theorem shortlex_of_place_lt (isStart : start.isLower = true)
    (leftLower : ∀ letter ∈ left, letter.isLower = true)
    (rightLower : ∀ letter ∈ right, letter.isLower = true)
    (less : place start left < place start right) :
    List.Shortlex (Before start) left.reverse right.reverse := by
  induction left generalizing right with
  | nil =>
      cases right with
      | nil => exact absurd less (Nat.lt_irrefl _)
      | cons letter rest => exact .of_length_lt (by simp)
  | cons letter rest ih =>
      cases right with
      | nil => exact absurd less (Nat.not_lt_zero _)
      | cons other others =>
          obtain ⟨isLetter, restLower⟩ := List.forall_mem_cons.mp leftLower
          obtain ⟨isOther, othersLower⟩ := List.forall_mem_cons.mp rightLower
          have bound := rank_lt start letter
          have otherBound := rank_lt start other
          rw [place, place] at less
          rw [List.reverse_cons, List.reverse_cons]
          -- The higher wheels decide, unless they show the same.
          rcases Nat.lt_or_ge (place start rest) (place start others) with
            higher | notHigher
          · rcases List.shortlex_def.mp (ih restLower othersLower higher) with
              shorter | ⟨length_eq, before⟩
            · exact .of_length_lt (by simpa using shorter)
            · exact .of_lex (by simpa using length_eq) (lex_append length_eq before _ _)
          · have same : rest = others :=
              eq_of_place_eq isStart restLower othersLower (by omega)
            subst same
            apply List.Shortlex.append_left
            rw [List.shortlex_singleton_iff]
            exact Nat.lt_of_add_lt_add_right (Nat.lt_of_add_lt_add_right less)

/-! ## How many names there are -/

/-- How many names have at most so many letters. -/
def spellings (most : Nat) : Nat :=
  ∑ length ∈ Finset.Icc 1 most, 26 ^ length

theorem spellings_succ (most : Nat) : spellings (most + 1) = 26 *
    (spellings most + 1) := by
  induction most with
  | zero => rfl
  | succ most ih =>
      have split (most : Nat) : spellings (most + 1) = spellings most + 26 ^ (most + 1) :=
        Finset.sum_Icc_succ_top (Nat.le_add_left 1 most) _
      have isPower := pow_succ 26 (most + 1)
      have isSplit := split most
      rw [split (most + 1)]
      omega

theorem spellings_mono {few many : Nat} (le : few ≤ many) :
    spellings few ≤ spellings many := by
  induction le with
  | refl => exact Nat.le_refl _
  | step _ ih =>
      rw [spellings_succ]
      omega

/-- Names are placed behind all shorter ones, and before all longer ones. -/
theorem place_bounds (start letter : Char) (wheels : List Char) :
    spellings wheels.length < place start (letter :: wheels) ∧
      place start (letter :: wheels) ≤ spellings (wheels.length + 1) := by
  have bound := rank_lt start letter
  induction wheels generalizing letter with
  | nil =>
      rw [place, place, List.length_nil, spellings_succ]
      exact ⟨Nat.succ_pos _, by omega⟩
  | cons next rest ih =>
      obtain ⟨longer, shorter⟩ := ih next (rank_lt start next)
      rw [place, List.length_cons, spellings_succ (rest.length + 1),
        spellings_succ rest.length]
      rw [spellings_succ] at shorter
      omega

theorem place_le_spellings_iff (nonempty : wheels ≠ []) (most : Nat) :
    place start wheels ≤ spellings most ↔ wheels.length ≤ most := by
  obtain ⟨letter, rest, rfl⟩ := List.exists_cons_of_ne_nil nonempty
  obtain ⟨longer, shorter⟩ := place_bounds start letter rest
  constructor
  · intro within
    by_contra tooLong
    have := spellings_mono (Nat.le_of_lt_succ (Nat.lt_of_not_le tooLong))
    omega
  · intro fits
    exact shorter.trans (spellings_mono fits)

/-! ## All names in a row -/

/-- The name that an odometer shows after so many steps. -/
def nameAfter (odometer : Odometer) (steps : Nat) : String :=
  (advance^[steps] odometer).name

/-- The names that an odometer shows in a row. -/
def names (odometer : Odometer) (count : Nat) : List String :=
  (List.range count).map odometer.nameAfter

/-- After so many steps, the wheels show the name of this place. -/
theorem iterate_advance (isStart : start.isLower = true) (steps : Nat) :
    (advance^[steps] (ofStart start)).start = start ∧
      (advance^[steps] (ofStart start)).Lettered ∧
      place start (advance^[steps] (ofStart start)).wheels = steps + 1 := by
  induction steps with
  | zero =>
      refine ⟨rfl, lettered_ofStart isStart, ?_⟩
      change rank start start + 1 + 26 * 0 = 1
      rw [rank_start]
  | succ steps ih =>
      obtain ⟨start_eq, lettered, isPlace⟩ := ih
      rw [Function.iterate_succ_apply']
      refine ⟨start_eq, lettered.advance, ?_⟩
      rw [advance, start_eq, place_turn isStart lettered.wheels, isPlace]

/-- The wheels show every name at its place. -/
theorem exists_iterate_advance (isStart : start.isLower = true) (nonempty : wheels ≠ [])
    (lower : ∀ letter ∈ wheels, letter.isLower = true) :
    ∃ steps, place start wheels = steps + 1 ∧
      (advance^[steps] (ofStart start)).wheels = wheels := by
  obtain ⟨letter, rest, rfl⟩ := List.exists_cons_of_ne_nil nonempty
  obtain ⟨steps, isPlace⟩ := Nat.exists_eq_add_of_lt (place_bounds start letter rest).1
  refine ⟨spellings rest.length + steps, isPlace, ?_⟩
  obtain ⟨_, lettered, isReached⟩ :=
    iterate_advance isStart (spellings rest.length + steps)
  exact eq_of_place_eq isStart lettered.wheels lower (isReached.trans isPlace.symm)

theorem toList_name (odometer : Odometer) :
    odometer.name.toList = odometer.wheels.reverse :=
  String.toList_ofList

/-- However often an odometer goes on, no name comes back. -/
theorem nameAfter_injective (isStart : start.isLower = true) :
    Function.Injective (ofStart start).nameAfter := by
  intro steps others same
  have wheels_eq := congrArg String.toList same
  simp only [nameAfter, toList_name, List.reverse_inj] at wheels_eq
  have isPlace := (iterate_advance isStart steps).2.2
  rw [wheels_eq, (iterate_advance isStart others).2.2] at isPlace
  exact (Nat.succ.inj isPlace).symm

/-- The name after fewer steps than there are short names is short. -/
theorem nameAfter_bounds (isStart : start.isLower = true) {steps most : Nat}
    (few : steps < spellings most) :
    1 ≤ ((ofStart start).nameAfter steps).length ∧
    ((ofStart start).nameAfter steps).length ≤ most ∧
      ∀ letter ∈ ((ofStart start).nameAfter steps).toList, letter.isLower = true := by
  obtain ⟨_, lettered, isPlace⟩ := iterate_advance isStart steps
  have fits := (@place_le_spellings_iff start _ lettered.nonempty most).mp (isPlace ▸ few)
  rw [← String.length_toList, nameAfter, toList_name, List.length_reverse]
  refine ⟨List.length_pos_iff.mpr lettered.nonempty, fits, fun letter member => ?_⟩
  exact lettered.wheels letter (List.mem_reverse.mp member)

/-- A short name comes after fewer steps than there are short names. -/
theorem exists_nameAfter_eq (isStart : start.isLower = true) {text : String} {most : Nat}
    (nonempty : 1 ≤ text.length) (fits : text.length ≤ most)
    (lower : ∀ letter ∈ text.toList, letter.isLower = true) :
    ∃ steps < spellings most, (ofStart start).nameAfter steps = text := by
  rw [← String.length_toList, ← List.length_reverse] at nonempty fits
  have notNil := List.length_pos_iff.mp nonempty
  have within := (@place_le_spellings_iff start _ notNil most).mpr fits
  obtain ⟨steps, isPlace, atPlace⟩ := exists_iterate_advance isStart notNil
    fun letter member => lower letter (List.mem_reverse.mp member)
  refine ⟨steps, by omega, String.toList_inj.mp ?_⟩
  rw [nameAfter, toList_name, atPlace, List.reverse_reverse]

/-- Let an odometer start at a letter.  As many names as there are with at most so many
letters are exactly these names, each once, the shorter ones first and those of one
length in the order of the alphabet that begins with the start.  However often the
odometer goes on, no name comes back. -/
theorem names_enumerate_spellings (isStart : start.isLower = true) (most : Nat) :
    let names := (ofStart start).names (∑ length ∈ Finset.Icc 1 most, 26 ^ length)
    (∀ name, name ∈ names ↔ 1 ≤ name.length ∧ name.length ≤ most ∧
      ∀ letter ∈ name.toList, letter.isLower = true) ∧
    names.Nodup ∧
    names.Pairwise (fun left right => List.Shortlex (Before start) left.toList
      right.toList) ∧
    Function.Injective (ofStart start).nameAfter := by
  intro names
  have isRow : names = (List.range (spellings most)).map (ofStart start).nameAfter := rfl
  rw [isRow]
  refine ⟨fun name => ?_, ?_, ?_, nameAfter_injective isStart⟩
  · rw [List.mem_map]
    constructor
    · rintro ⟨steps, inRow, rfl⟩
      exact nameAfter_bounds isStart (List.mem_range.mp inRow)
    · rintro ⟨nonempty, fits, lower⟩
      obtain ⟨steps, few, isName⟩ := exists_nameAfter_eq isStart nonempty fits lower
      exact ⟨steps, List.mem_range.mpr few, isName⟩
  · exact List.nodup_range.map (nameAfter_injective isStart)
  · rw [List.pairwise_map]
    apply List.pairwise_lt_range.imp
    intro steps later before
    obtain ⟨_, lettered, isPlace⟩ := iterate_advance isStart steps
    obtain ⟨_, laterLettered, isLaterPlace⟩ := iterate_advance isStart later
    rw [nameAfter, nameAfter, toList_name, toList_name]
    exact shortlex_of_place_lt isStart lettered.wheels laterLettered.wheels (by omega)

/-- From `i` on, the first 702 names are those of one and two letters: `ih` is among
them, `iii` is not. -/
theorem names_from_i :
    'i'.isLower = true ∧ ((ofStart 'i').names 702).Nodup ∧
    "ih" ∈ (ofStart 'i').names 702 ∧
      "iii" ∉ (ofStart 'i').names 702 ∧
      ((ofStart 'i').names 702).Pairwise
        (fun left right => List.Shortlex (Before 'i') left.toList right.toList) := by
  have isStart : 'i'.isLower = true := by decide
  have lower : ∀ letter ∈ "ih".toList, letter.isLower = true :=
    List.all_eq_true.mp (by decide)
  obtain ⟨isName, nodup, ordered, _⟩ := names_enumerate_spellings isStart 2
  refine ⟨isStart, nodup, (isName "ih").mpr ⟨by decide, by decide, lower⟩,
    fun member => ?_, ordered⟩
  exact absurd ((isName "iii").mp member).2.1 (by decide)

end LocalTable.Naming.Odometer
