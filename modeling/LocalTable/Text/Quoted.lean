import LocalTable.Text.Shapeless

/-!
# Quoted texts

A message quotes a text that could not be read.  The quoted form stands between
double quotes, on one line, and shows every character: quotes, backslashes and
the common control characters have short escapes, and characters without a
shape of their own are written by their number in base sixteen.
-/

namespace LocalTable.Text

/-- A number in base sixteen, in small letters. -/
def hexadecimal (number : Nat) : String :=
  String.ofList (Nat.toDigits 16 number)

/-- One character of a quoted text. -/
def escape (character : Char) : String :=
  if character = '"' then "\\\""
  else if character = '\\' then "\\\\"
  else if character = '\n' then "\\n"
  else if character = '\r' then "\\r"
  else if character = '\t' then "\\t"
  else if character = '\x00' then "\\0"
  else if isShapeless character then "\\u\x7b" ++ hexadecimal character.toNat ++ "\x7d"
  else character.toString

/-- The text between double quotes, with escapes. -/
def quoted (text : String) : String :=
  "\"" ++ String.join (text.toList.map escape) ++ "\""

end LocalTable.Text
