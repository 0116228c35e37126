/-!
# The name odometer

Names of numbers are counted through by letters, like the digits of an odometer
whose wheels all start at the same letter: from `i` the names are `i`, `j`, …,
`z`, `a`, …, `h`, `ii`, `ij`, and so on.
-/

namespace LocalTable.Naming

/-- Letters of the current name, the last one first, and the letter at which
every wheel starts. -/
structure Odometer where
  start : Char
  wheels : List Char
  deriving DecidableEq

namespace Odometer

/-- An odometer at its first name. -/
def ofStart (start : Char) : Odometer :=
  ⟨start, [start]⟩

/-- The letter after a letter, with `a` after `z`. -/
def nextLetter (letter : Char) : Char :=
  if letter = 'z' then 'a' else Char.ofNat (letter.toNat + 1)

/-- Turn the first wheel, and the next one if it comes round to the start.  When
all wheels have come round, there is one more. -/
def turn (start : Char) : List Char → List Char
  | [] => [start]
  | letter :: rest =>
      if nextLetter letter = start then start :: turn start rest
      else nextLetter letter :: rest

/-- The current name. -/
def name (odometer : Odometer) : String :=
  String.ofList odometer.wheels.reverse

/-- Go on to the next name. -/
def advance (odometer : Odometer) : Odometer :=
  { odometer with wheels := turn odometer.start odometer.wheels }

end Odometer

end LocalTable.Naming
