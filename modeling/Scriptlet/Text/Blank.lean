/-!
# Blanks

Two notions of blank space. Inside a source text only four characters separate lexemes; around a
setting every space character of Unicode is dropped.
-/

namespace Scriptlet.Text.Blank

/-- The characters that separate lexemes on one line: space, tab, carriage return, form feed. -/
def isSeparator (c : Char) : Bool :=
  c == ' ' || c == '\t' || c == '\r' || c == '\x0c'

/-- The space characters of Unicode: separators of every kind and the controls that act as one. -/
def isSpace (c : Char) : Bool :=
  let n := c.toNat
  (0x09 ≤ n && n ≤ 0x0d) || (0x1c ≤ n && n ≤ 0x20) || n == 0x85 || n == 0xa0 || n == 0x1680 ||
    (0x2000 ≤ n && n ≤ 0x200a) || n == 0x2028 || n == 0x2029 || n == 0x202f || n == 0x205f ||
    n == 0x3000

/-- A text without the spaces at both of its ends. -/
def strip (cs : List Char) : List Char :=
  ((cs.dropWhile isSpace).reverse.dropWhile isSpace).reverse

end Scriptlet.Text.Blank
