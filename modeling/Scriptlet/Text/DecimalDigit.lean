/-!
# Decimal digits

Numbers may be written with the decimal digits of any script. Every script that has them keeps its
ten digits next to each other in ascending order, so a table of the zeros is enough: a character is
a digit exactly when it lies within ten places of a zero, and its distance is its value.

* `DecimalDigit.value?` : the value of a digit, `none` for every other character.
* `DecimalDigit.number` : the number that a row of digits spells.
-/

namespace Scriptlet.Text.DecimalDigit

/-- The code points of the digit zero in every script (general category `Nd`), ascending. -/
def zeros : List Nat := [
    0x30, 0x660, 0x6f0, 0x7c0, 0x966, 0x9e6, 0xa66, 0xae6, 0xb66, 0xbe6, 0xc66, 0xce6, 0xd66,
    0xde6, 0xe50, 0xed0, 0xf20, 0x1040, 0x1090, 0x17e0, 0x1810, 0x1946, 0x19d0, 0x1a80, 0x1a90,
    0x1b50, 0x1bb0, 0x1c40, 0x1c50, 0xa620, 0xa8d0, 0xa900, 0xa9d0, 0xa9f0, 0xaa50, 0xabf0,
    0xff10, 0x104a0, 0x10d30, 0x11066, 0x110f0, 0x11136, 0x111d0, 0x112f0, 0x11450, 0x114d0,
    0x11650, 0x116c0, 0x11730, 0x118e0, 0x11950, 0x11c50, 0x11d50, 0x11da0, 0x16a60, 0x16ac0,
    0x16b50, 0x1d7ce, 0x1d7d8, 0x1d7e2, 0x1d7ec, 0x1d7f6, 0x1e140, 0x1e2f0, 0x1e950, 0x1fbf0]

/-- The value of a decimal digit of any script. -/
def value? (c : Char) : Option Nat :=
  zeros.findSome? fun start =>
    if start ≤ c.toNat ∧ c.toNat < start + 10 then some (c.toNat - start) else none

/-- Is the character a decimal digit of some script? -/
def isDigit (c : Char) : Bool := (value? c).isSome

/-- The number that a row of digits spells, most significant first. A character that is no digit
counts as zero; the callers have checked the row with `isDigit`. -/
def number (digits : List Char) : Nat :=
  digits.foldl (fun n c => 10 * n + (value? c).getD 0) 0

@[simp] theorem number_nil : number [] = 0 := rfl

/-- Appending a digit shifts the number by one place. -/
theorem number_append_singleton (digits : List Char) (c : Char) :
    number (digits ++ [c]) = 10 * number digits + (value? c).getD 0 := by
  simp [number, List.foldl_append]

end Scriptlet.Text.DecimalDigit
