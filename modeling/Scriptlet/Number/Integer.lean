import Scriptlet.Text.DecimalDigit

/-!
# Integers and their decimal text

Integers are unbounded, but their decimal text is not: neither reading nor writing handles more
than `digitLimit` digits. Reading counts every digit that is written, leading zeros included.
-/

namespace Scriptlet.Number.Integer

open Text.DecimalDigit

/-- The longest decimal text of an integer, in digits. Nothing is computed from it while a proof is
checked, unless it is unfolded by name. -/
@[irreducible] def digitLimit : Nat := 4300

/-- The decimal digits of a natural number, without leading zeros. -/
def digits (n : Nat) : List Char := Nat.toDigits 10 n

/-- The decimal text of an integer, unless it has too many digits. -/
def text? (n : Int) : Option String :=
  if n.natAbs < Nat.pow 10 digitLimit then
    some (String.ofList (if n < 0 then '-' :: digits n.natAbs else digits n.natAbs))
  else none

/-- The number that a row of digits spells, unless there are too many of them. -/
def read? (row : List Char) : Option Nat :=
  if row.length ≤ digitLimit then some (number row) else none

/-- The value of a hexadecimal digit. -/
def hexValue (c : Char) : Nat :=
  if c.isDigit then c.toNat - '0'.toNat
  else if 'a' ≤ c then c.toNat - 'a'.toNat + 10
  else c.toNat - 'A'.toNat + 10

/-- Is the character a hexadecimal digit? -/
def isHexDigit (c : Char) : Bool :=
  c.isDigit || ('a' ≤ c && c ≤ 'f') || ('A' ≤ c && c ≤ 'F')

/-- The number that a row of hexadecimal digits spells. -/
def hexNumber (row : List Char) : Nat := row.foldl (fun n c => 16 * n + hexValue c) 0

end Scriptlet.Number.Integer
