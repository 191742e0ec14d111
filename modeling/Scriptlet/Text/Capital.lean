/-!
# Capital letters

Names of log levels are compared in capitals. Besides the ASCII letters a few characters are
written in capitals with ASCII letters alone: the dotless i, the long s, the sharp s and the Latin
ligatures. No other character has ASCII capitals, so leaving it as it is can never turn a word into
one of ASCII capitals.
-/

namespace Scriptlet.Text.Capital

/-- The characters outside ASCII whose capitals are ASCII letters. -/
def special : List (Char × List Char) := [
  ('ß', ['S', 'S']), ('ı', ['I']), ('ſ', ['S']),
  ('ﬀ', ['F', 'F']), ('ﬁ', ['F', 'I']), ('ﬂ', ['F', 'L']),
  ('ﬃ', ['F', 'F', 'I']), ('ﬄ', ['F', 'F', 'L']),
  ('ﬅ', ['S', 'T']), ('ﬆ', ['S', 'T'])]

/-- The capitals of one character, where they are ASCII. -/
def ofChar (c : Char) : List Char :=
  match special.lookup c with
  | some letters => letters
  | none => [c.toUpper]

/-- A text in capitals, where they are ASCII. -/
def ofText (cs : List Char) : List Char := cs.flatMap ofChar

end Scriptlet.Text.Capital
