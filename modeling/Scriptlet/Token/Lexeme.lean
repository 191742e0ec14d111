import Scriptlet.Number.Integer
import Scriptlet.Text.Blank

/-!
# Lexemes

A source text is cut into lexemes from left to right. `Lexeme.read?` cuts off the first one; it
fails exactly where no lexeme begins.

## How it works

There is one recogniser per class of lexemes. Each takes the text that is left and gives the lexeme
that it begins with and the rest, and the first recogniser to succeed decides. The order matters in
a few places: a comment begins with the sign for division, a number with a fraction begins like one
without, and a row of three points begins with a point.

## Why it terminates

`Lexeme.read?_append`: a lexeme's own text and the rest are the text that was read. No lexeme is
empty, so the rest is shorter (`Lexeme.length_rest_lt`), and whoever reads lexeme after lexeme ends.
-/

namespace Scriptlet

open Text Text.DecimalDigit Number.Integer

/-- The pieces that a source text is cut into. -/
inductive Lexeme where
  /-- A newline. No token comes of it, nor of blanks and comments. -/
  | newline
  | blanks (row : List Char)
  /-- A comment up to the end of its line, by what is behind its mark. -/
  | lineComment (line : List Char)
  /-- A comment between two marks, by what is behind the first one. -/
  | blockComment (body : List Char)
  /-- The beginning of a comment that has no end. -/
  | openComment
  | integer (digits : List Char)
  | hex (mark : Char) (digits : List Char)
  | float (whole fraction exponent : List Char)
  | string (content : List Char)
  | char (content : List Char)
  | word (text : List Char)
  | op (text : List Char)
  | punct (c : Char)
  deriving DecidableEq, Repr

namespace Lexeme

/-- The source text of a lexeme. -/
def text : Lexeme → List Char
  | newline => ['\n']
  | blanks row => row
  | lineComment line => '/' :: '/' :: line
  | blockComment body => '/' :: '*' :: body
  | openComment => ['/', '*']
  | integer digits => digits
  | hex mark digits => '0' :: mark :: digits
  | float whole fraction exponent => whole ++ '.' :: (fraction ++ exponent)
  | string content => '"' :: (content ++ ['"'])
  | char content => '\'' :: (content ++ ['\''])
  | word text => text
  | op text => text
  | punct c => [c]

/-! ## Blanks and comments -/

/-- A newline. -/
def newline? : List Char → Option (Lexeme × List Char)
  | '\n' :: rest => some (newline, rest)
  | _ => none

/-- A row of blanks. -/
def blanks? (cs : List Char) : Option (Lexeme × List Char) :=
  let row := cs.takeWhile Blank.isSeparator
  if row.isEmpty then none else some (blanks row, cs.dropWhile Blank.isSeparator)

/-- Splits a text behind the first end of a comment. -/
def closeComment? : List Char → Option (List Char × List Char)
  | [] => none
  | '*' :: '/' :: rest => some (['*', '/'], rest)
  | c :: rest => (closeComment? rest).map fun (inside, after) => (c :: inside, after)

/-- A comment: up to the end of the line, or between its two marks. -/
def comment? : List Char → Option (Lexeme × List Char)
  | '/' :: '/' :: rest =>
    some (lineComment (rest.takeWhile (· != '\n')), rest.dropWhile (· != '\n'))
  | '/' :: '*' :: rest =>
    match closeComment? rest with
    | some (inside, after) => some (blockComment inside, after)
    | none => some (openComment, rest)
  | _ => none

/-! ## Numbers -/

/-- The sign at the beginning of a text, if there is one, and the rest. -/
def sign : List Char → List Char × List Char
  | '+' :: rest => (['+'], rest)
  | '-' :: rest => (['-'], rest)
  | rest => ([], rest)

/-- The exponent at the beginning of a text: empty unless a mark, an optional sign and digits. -/
def exponent (cs : List Char) : List Char × List Char :=
  match cs with
  | mark :: rest =>
    let row := (sign rest).2
    let digits := row.takeWhile isDigit
    if (mark = 'e' ∨ mark = 'E') ∧ digits.isEmpty = false then
      (mark :: ((sign rest).1 ++ digits), row.dropWhile isDigit)
    else ([], cs)
  | [] => ([], cs)

/-- A number. Digits, then a point and digits, make a float; a lone zero, then `x` and hexadecimal
digits, make a hexadecimal number; other digits make an integer. -/
def number? (cs : List Char) : Option (Lexeme × List Char) :=
  let whole := cs.takeWhile isDigit
  let rest := cs.dropWhile isDigit
  if whole.isEmpty then none
  else
    match rest with
    | '.' :: after =>
      let fraction := after.takeWhile isDigit
      if fraction.isEmpty then some (integer whole, rest)
      else
        let (e, final) := exponent (after.dropWhile isDigit)
        some (float whole fraction e, final)
    | mark :: after =>
      let digits := after.takeWhile isHexDigit
      if whole = ['0'] ∧ (mark = 'x' ∨ mark = 'X') ∧ digits.isEmpty = false then
        some (hex mark digits, after.dropWhile isHexDigit)
      else some (integer whole, rest)
    | [] => some (integer whole, rest)

/-! ## Quoted literals -/

/-- One character of a quoted literal at the beginning of a text: a backslash and any character, or
any character but a backslash, the closing mark and a newline. -/
def quotedItem? (mark : Char) : List Char → Option (List Char × List Char)
  | '\\' :: c :: rest => some (['\\', c], rest)
  | '\\' :: [] => none
  | c :: rest => if c = mark ∨ c = '\n' then none else some ([c], rest)
  | [] => none

/-- The inside of a string up to its closing mark, and what follows the mark. -/
def stringContent? : List Char → Option (List Char × List Char)
  | [] => none
  | '"' :: rest => some ([], rest)
  | '\\' :: [] => none
  | '\\' :: c :: rest =>
    (stringContent? rest).map fun (inside, after) => ('\\' :: c :: inside, after)
  | c :: rest =>
    if c = '\n' then none
    else (stringContent? rest).map fun (inside, after) => (c :: inside, after)

/-- A string. -/
def string? : List Char → Option (Lexeme × List Char)
  | '"' :: rest => (stringContent? rest).map fun (inside, after) => (string inside, after)
  | _ => none

/-- A single character between apostrophes. -/
def char? : List Char → Option (Lexeme × List Char)
  | '\'' :: rest =>
    match quotedItem? '\'' rest with
    | some (inside, '\'' :: after) => some (char inside, after)
    | _ => none
  | _ => none

/-! ## Words and signs -/

/-- The characters that a name can begin with. -/
def isNameStart (c : Char) : Bool := c.isAlpha || c == '_' || c == '$'

/-- The characters that a name can go on with. -/
def isNamePart (c : Char) : Bool := c.isAlphanum || c == '_' || c == '$'

/-- A name or keyword. -/
def word? : List Char → Option (Lexeme × List Char)
  | c :: rest =>
    if isNameStart c then
      some (word (c :: rest.takeWhile isNamePart), rest.dropWhile isNamePart)
    else none
  | [] => none

/-- The operator signs, a longer one before the shorter ones that it begins with. -/
def operators : List (List Char) :=
  [['.', '.', '.'], [':', ':'], ['=', '='], ['!', '='], ['<', '='], ['>', '='],
    ['-'], ['+'], ['*'], ['/'], ['%'], ['<'], ['>'], ['=']]

/-- The punctuation marks. -/
def punctuation : List Char := ['(', ')', '\x7b', '\x7d', '[', ']', ',', ';', ':', '.']

/-- An operator sign. -/
def op? (cs : List Char) : Option (Lexeme × List Char) :=
  (operators.find? (·.isPrefixOf cs)).map fun sign => (op sign, cs.drop sign.length)

/-- A punctuation mark. -/
def punct? : List Char → Option (Lexeme × List Char)
  | c :: rest => if punctuation.contains c then some (punct c, rest) else none
  | [] => none

/-! ## The first lexeme -/

/-- The recognisers, in order of precedence. -/
def recognisers : List (List Char → Option (Lexeme × List Char)) :=
  [newline?, blanks?, comment?, number?, string?, char?, word?, op?, punct?]

/-- Cuts the first lexeme off a text. -/
def read? (cs : List Char) : Option (Lexeme × List Char) :=
  recognisers.findSome? fun recognise => recognise cs

/-! ## A lexeme and the rest are the whole text -/

theorem newline?_append {cs rest : List Char} {l : Lexeme} (h : newline? cs = some (l, rest)) :
    l.text ++ rest = cs ∧ l.text ≠ [] := by
  unfold newline? at h
  split at h <;> simp_all
  obtain ⟨rfl, rfl⟩ := h
  simp [text]

theorem blanks?_append {cs rest : List Char} {l : Lexeme} (h : blanks? cs = some (l, rest)) :
    l.text ++ rest = cs ∧ l.text ≠ [] := by
  unfold blanks? at h
  simp only at h
  split at h
  · simp at h
  · rename_i hne
    simp only [Option.some.injEq, Prod.mk.injEq] at h
    obtain ⟨rfl, rfl⟩ := h
    exact ⟨List.takeWhile_append_dropWhile, by simpa [text] using hne⟩

theorem closeComment?_append {cs inside after : List Char}
    (h : closeComment? cs = some (inside, after)) : inside ++ after = cs := by
  fun_induction closeComment? cs generalizing inside after with
  | case1 => simp at h
  | case2 rest =>
    simp only [Option.some.injEq, Prod.mk.injEq] at h
    obtain ⟨rfl, rfl⟩ := h
    rfl
  | case3 c rest _ ih =>
    obtain ⟨⟨i, a⟩, hi, he⟩ := Option.map_eq_some_iff.1 h
    simp only [Prod.mk.injEq] at he
    obtain ⟨rfl, rfl⟩ := he
    simp [ih hi]

theorem comment?_append {cs rest : List Char} {l : Lexeme} (h : comment? cs = some (l, rest)) :
    l.text ++ rest = cs ∧ l.text ≠ [] := by
  unfold comment? at h
  split at h
  · simp only [Option.some.injEq, Prod.mk.injEq] at h
    obtain ⟨rfl, rfl⟩ := h
    simp [text, List.takeWhile_append_dropWhile]
  · split at h
    · rename_i hc
      simp only [Option.some.injEq, Prod.mk.injEq] at h
      obtain ⟨rfl, rfl⟩ := h
      simp [text, closeComment?_append hc]
    · simp only [Option.some.injEq, Prod.mk.injEq] at h
      obtain ⟨rfl, rfl⟩ := h
      simp [text]
  · simp at h

theorem sign_append (cs : List Char) : (sign cs).1 ++ (sign cs).2 = cs := by
  unfold sign
  split <;> rfl

theorem exponent_append (cs : List Char) : (exponent cs).1 ++ (exponent cs).2 = cs := by
  unfold exponent
  split
  · simp only
    split
    · simp only [List.cons_append, List.append_assoc, List.takeWhile_append_dropWhile, sign_append]
    · simp
  · simp

theorem number?_append {cs rest : List Char} {l : Lexeme} (h : number? cs = some (l, rest)) :
    l.text ++ rest = cs ∧ l.text ≠ [] := by
  have whole := List.takeWhile_append_dropWhile (p := isDigit) (l := cs)
  unfold number? at h
  simp only at h
  split at h
  · simp at h
  rename_i hne
  split at h
  · rename_i after hrest
    split at h
    · simp only [Option.some.injEq, Prod.mk.injEq] at h
      obtain ⟨rfl, rfl⟩ := h
      exact ⟨by simp [text], by simpa [text] using hne⟩
    · simp only [Option.some.injEq, Prod.mk.injEq] at h
      obtain ⟨rfl, rfl⟩ := h
      refine ⟨?_, by simp [text]⟩
      have tail := exponent_append (after.dropWhile isDigit)
      have fraction := List.takeWhile_append_dropWhile (p := isDigit) (l := after)
      rw [hrest] at whole
      simp only [text, List.append_assoc, List.cons_append, tail, fraction, whole]
  · rename_i mark after _ hrest
    split at h
    · rename_i hx
      simp only [Option.some.injEq, Prod.mk.injEq] at h
      obtain ⟨rfl, rfl⟩ := h
      rw [hrest, hx.1] at whole
      exact ⟨by simpa [text, List.takeWhile_append_dropWhile] using whole, by simp [text]⟩
    · simp only [Option.some.injEq, Prod.mk.injEq] at h
      obtain ⟨rfl, rfl⟩ := h
      exact ⟨by simp [text], by simpa [text] using hne⟩
  · simp only [Option.some.injEq, Prod.mk.injEq] at h
    obtain ⟨rfl, rfl⟩ := h
    exact ⟨by simp [text], by simpa [text] using hne⟩

theorem stringContent?_append {cs inside after : List Char}
    (h : stringContent? cs = some (inside, after)) : inside ++ '"' :: after = cs := by
  fun_induction stringContent? cs generalizing inside after with
  | case1 => simp at h
  | case2 rest => simp_all
  | case3 => simp at h
  | case4 c rest ih =>
    obtain ⟨⟨i, a⟩, hi, he⟩ := Option.map_eq_some_iff.1 h
    simp only [Prod.mk.injEq] at he
    obtain ⟨rfl, rfl⟩ := he
    simp [ih hi]
  | case5 => simp at h
  | case6 c rest _ _ _ _ ih =>
    obtain ⟨⟨i, a⟩, hi, he⟩ := Option.map_eq_some_iff.1 h
    simp only [Prod.mk.injEq] at he
    obtain ⟨rfl, rfl⟩ := he
    simp [ih hi]

theorem string?_append {cs rest : List Char} {l : Lexeme} (h : string? cs = some (l, rest)) :
    l.text ++ rest = cs ∧ l.text ≠ [] := by
  unfold string? at h
  split at h
  · obtain ⟨⟨i, a⟩, hi, he⟩ := Option.map_eq_some_iff.1 h
    simp only [Prod.mk.injEq] at he
    obtain ⟨rfl, rfl⟩ := he
    simp [text, stringContent?_append hi]
  · simp at h

theorem quotedItem?_append {mark : Char} {cs inside after : List Char}
    (h : quotedItem? mark cs = some (inside, after)) : inside ++ after = cs := by
  unfold quotedItem? at h
  split at h
  · simp_all
    obtain ⟨rfl, rfl⟩ := h
    simp
  · simp at h
  · split at h <;> simp_all
    obtain ⟨rfl, rfl⟩ := h
    simp
  · simp at h

theorem char?_append {cs rest : List Char} {l : Lexeme} (h : char? cs = some (l, rest)) :
    l.text ++ rest = cs ∧ l.text ≠ [] := by
  unfold char? at h
  split at h
  · split at h
    · rename_i hi
      simp only [Option.some.injEq, Prod.mk.injEq] at h
      obtain ⟨rfl, rfl⟩ := h
      simp [text, ← quotedItem?_append hi]
    · simp at h
  · simp at h

theorem word?_append {cs rest : List Char} {l : Lexeme} (h : word? cs = some (l, rest)) :
    l.text ++ rest = cs ∧ l.text ≠ [] := by
  unfold word? at h
  split at h
  · split at h
    · simp only [Option.some.injEq, Prod.mk.injEq] at h
      obtain ⟨rfl, rfl⟩ := h
      simp [text, List.takeWhile_append_dropWhile]
    · simp at h
  · simp at h

theorem op?_append {cs rest : List Char} {l : Lexeme} (h : op? cs = some (l, rest)) :
    l.text ++ rest = cs ∧ l.text ≠ [] := by
  obtain ⟨sign, hs, he⟩ := Option.map_eq_some_iff.1 h
  simp only [Prod.mk.injEq] at he
  obtain ⟨rfl, rfl⟩ := he
  have start := List.find?_some hs
  obtain ⟨tail, rfl⟩ := List.isPrefixOf_iff_prefix.1 start
  refine ⟨by simp [text], ?_⟩
  have known := List.mem_of_find?_eq_some hs
  rintro e
  simp only [text] at e
  subst e
  simp [operators] at known

theorem punct?_append {cs rest : List Char} {l : Lexeme} (h : punct? cs = some (l, rest)) :
    l.text ++ rest = cs ∧ l.text ≠ [] := by
  unfold punct? at h
  split at h
  · split at h
    · simp only [Option.some.injEq, Prod.mk.injEq] at h
      obtain ⟨rfl, rfl⟩ := h
      simp [text]
    · simp at h
  · simp at h

/-- A lexeme's own text, which is not empty, and the rest are the text that was read. -/
theorem read?_append {cs rest : List Char} {l : Lexeme} (h : read? cs = some (l, rest)) :
    l.text ++ rest = cs ∧ l.text ≠ [] := by
  obtain ⟨recognise, known, h⟩ := List.exists_of_findSome?_eq_some h
  simp only [recognisers, List.mem_cons, List.not_mem_nil, or_false] at known
  rcases known with rfl | rfl | rfl | rfl | rfl | rfl | rfl | rfl | rfl
  · exact newline?_append h
  · exact blanks?_append h
  · exact comment?_append h
  · exact number?_append h
  · exact string?_append h
  · exact char?_append h
  · exact word?_append h
  · exact op?_append h
  · exact punct?_append h

/-- Cutting a lexeme off leaves a shorter text. -/
theorem length_rest_lt {cs rest : List Char} {l : Lexeme} (h : read? cs = some (l, rest)) :
    rest.length < cs.length := by
  obtain ⟨rfl, hne⟩ := read?_append h
  have := List.length_pos_iff.2 hne
  simp
  omega

end Lexeme

end Scriptlet
