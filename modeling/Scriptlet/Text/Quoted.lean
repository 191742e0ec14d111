import Scriptlet.Text.Printable

/-!
# Quoted text in diagnostics

A diagnostic that shows a piece of source text puts it between quote marks and makes every
character visible.

* The quote mark is the apostrophe, unless the text has an apostrophe and no double quote.
* The backslash and the quote mark in use get a backslash in front; newline, carriage return and
  tab have their usual letters.
* Any other character that does not show is given by its code point in hexadecimal, with two, four
  or eight digits as it needs.
-/

namespace Scriptlet.Text.Quoted

open Printable

/-- A hexadecimal digit in lower case. -/
def hexDigit (n : Nat) : Char := Nat.digitChar (n % 16)

/-- The last `width` hexadecimal digits of `n`. -/
def hex : Nat → Nat → List Char
  | 0, _ => []
  | width + 1, n => hex width (n / 16) ++ [hexDigit n]

/-- A text of width `w` gets exactly `w` digits. -/
@[simp] theorem length_hex (width n : Nat) : (hex width n).length = width := by
  induction width generalizing n with
  | zero => rfl
  | succ width ih => simp [hex, ih]

/-- The code point of a character that does not show. -/
def codePoint (c : Char) : List Char :=
  let n := c.toNat
  if n < 0x100 then '\\' :: 'x' :: hex 2 n
  else if n < 0x10000 then '\\' :: 'u' :: hex 4 n
  else '\\' :: 'U' :: hex 8 n

/-- One character between quote marks `mark`. -/
def escape (mark c : Char) : List Char :=
  if c = mark ∨ c = '\\' then ['\\', c]
  else if c = '\n' then ['\\', 'n']
  else if c = '\r' then ['\\', 'r']
  else if c = '\t' then ['\\', 't']
  else if isPrintable c then [c]
  else codePoint c

/-- The quote mark for a text. -/
def mark (cs : List Char) : Char :=
  if cs.contains '\'' && !cs.contains '"' then '"' else '\''

/-- A text as a diagnostic shows it. -/
def quoted (text : String) : String :=
  let cs := text.toList
  let q := mark cs
  String.ofList (q :: (cs.flatMap (escape q) ++ [q]))

end Scriptlet.Text.Quoted
