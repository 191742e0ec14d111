import Scriptlet.Proofs.Number.Integer
import Scriptlet.Proofs.Token.Sound

/-!
# Tokens that are written and scanned again

A `Piece` is a token without its place. It is written as its own text, or between quotation marks
where it is a literal of characters. `Piece.Written.read?_of_clear`: it is then the first lexeme of
the text, unless the text behind it could go on with it.

Inside a literal a character may stand for itself or be spelled out by an escape sequence
(`Lexeme.Literal`); a backslash, the closing mark and a newline are always spelled out.
`Piece.write` chooses one of the ways: a backslash before every backslash and closing mark, `\n` for
a newline, and every other character as itself.
-/

namespace Scriptlet

/-- A token without its place. -/
structure Piece where
  kind : Token.Kind
  text : String
  deriving DecidableEq, Repr

/-- A token without its place. -/
def Token.piece (t : Token) : Piece := ⟨t.kind, t.text⟩

namespace Piece

/-- A character as it is written inside a literal. -/
def escaped (mark c : Char) : List Char :=
  if c = '\n' then ['\\', 'n'] else if c = '\\' ∨ c = mark then ['\\', c] else [c]

/-- A literal of characters between its marks. -/
def quoted (mark : Char) (cs : List Char) : List Char :=
  mark :: (cs.flatMap (escaped mark) ++ [mark])

/-- A piece as it is written. -/
def write (p : Piece) : List Char :=
  match p.kind with
  | .string => quoted '"' p.text.toList
  | .char => quoted '\'' p.text.toList
  | _ => p.text.toList

/-- Pieces as they are written, each with a blank behind it. -/
def render (pieces : List Piece) : List Char := pieces.flatMap fun p => p.write ++ [' ']

/-- The text is one that a token of the kind has. Floats are left out. -/
def Proper (p : Piece) : Prop :=
  match p.kind with
  | .name => Token.isName p.text = true
  | .keyword => p.text ∈ Token.keywords
  | .integer => p.text.toList ≠ [] ∧ ∀ c ∈ p.text.toList, c.isDigit = true
  | .float => False
  | .string => True
  | .char => ∃ c, p.text = String.ofList [c]
  | .op => p.text.toList ∈ Lexeme.operators
  | .punct => ∃ c ∈ Lexeme.punctuation, p.text = c.toString

/-- Is the piece an operator sign or a punctuation mark? -/
def isSign (p : Piece) : Bool := p.kind == .op || p.kind == .punct

/-- A name. -/
abbrev name (text : String) : Piece := ⟨.name, text⟩

/-- A keyword. -/
abbrev keyword (text : String) : Piece := ⟨.keyword, text⟩

/-- An operator sign. -/
abbrev op (text : String) : Piece := ⟨.op, text⟩

/-- A punctuation mark. -/
abbrev punct (text : String) : Piece := ⟨.punct, text⟩

variable {ι : Type}

/-- A comma, if there are items to come. -/
def comma : List ι → List Piece
  | [] => []
  | _ :: _ => [punct ","]

/-- Items one behind the other and what stands behind them all. How an item is written may depend
on the items to come. -/
def joined (own : ι → List ι → List Piece) (tail : List Piece) : List ι → List Piece
  | [] => tail
  | x :: xs => own x xs ++ joined own tail xs

end Piece

namespace Lexeme

open Text Text.DecimalDigit

variable {c : Char} {rest : List Char}

/-! ## What a lexeme does not begin with

The recognisers go by the first character, or by the first two. -/

theorem newline?_cons (h : c ≠ '\n') : newline? (c :: rest) = none := by
  unfold newline?
  split
  · next heq => simp_all
  · rfl

theorem blanks?_cons (h : Blank.isSeparator c = false) : blanks? (c :: rest) = none := by
  simp [blanks?, h]

theorem comment?_cons (h : c ≠ '/') : comment? (c :: rest) = none := by
  unfold comment?
  split
  · next heq => simp_all
  · next heq => simp_all
  · rfl

theorem number?_cons (h : isDigit c = false) : number? (c :: rest) = none := by
  simp [number?, h]

theorem string?_cons (h : c ≠ '"') : string? (c :: rest) = none := by
  unfold string?
  split
  · next heq => simp_all
  · rfl

theorem char?_cons (h : c ≠ '\'') : char? (c :: rest) = none := by
  unfold char?
  split
  · next heq => simp_all
  · rfl

/-! ## The first lexeme of a text -/

/-- A text that begins with a blank begins with a row of blanks. -/
theorem read?_separator (h : Blank.isSeparator c = true) :
    read? (c :: rest) =
      some (blanks (c :: rest.takeWhile Blank.isSeparator), rest.dropWhile Blank.isSeparator) := by
  have hn : c ≠ '\n' := by
    rintro rfl
    cases h
  simp [read?, recognisers, newline?_cons hn, blanks?, h]

theorem read?_newline : read? ('\n' :: rest) = some (newline, rest) := rfl

/-- No word or number could go on with the text. -/
def Clear (rest : List Char) : Prop :=
  ∀ c ∈ rest.head?, isNamePart c = false ∧ isDigit c = false ∧ c ≠ '.'

theorem clear_cons {c : Char} (h : isNamePart c = false ∧ isDigit c = false ∧ c ≠ '.')
    (rest : List Char) : Clear (c :: rest) := by
  intro d hd
  cases hd
  exact h

theorem clear_nil : Clear [] := fun _ h => nomatch h

/-- A row of characters ends where one comes that does not belong to it. -/
theorem takeWhile_append {p : Char → Bool} {cs : List Char} (h : ∀ d ∈ cs, p d = true)
    (hr : ∀ d ∈ rest.head?, p d = false) : (cs ++ rest).takeWhile p = cs := by
  rw [List.takeWhile_append_of_pos h]
  cases rest with
  | nil => simp
  | cons d rest => rw [List.takeWhile_cons_of_neg (by simp [hr d rfl]), List.append_nil]

theorem dropWhile_append {p : Char → Bool} {cs : List Char} (h : ∀ d ∈ cs, p d = true)
    (hr : ∀ d ∈ rest.head?, p d = false) : (cs ++ rest).dropWhile p = rest := by
  rw [List.dropWhile_append_of_pos h]
  cases rest with
  | nil => rfl
  | cons d rest => rw [List.dropWhile_cons_of_neg (by simp [hr d rfl])]

theorem isDigit_of_isNameStart (h : isNameStart c = true) : isDigit c = false := by
  have hrange : c.toNat < 0x660 ∧ ¬ (0x30 ≤ c.toNat ∧ c.toNat < 0x3a) := by
    have hc : (((decide (65 ≤ c.val ∧ c.val ≤ 90) || 97 ≤ c.val && c.val ≤ 122) || c == '_') ||
        c == '$') = true := h
    simp only [Bool.or_eq_true, Bool.and_eq_true, decide_eq_true_eq, beq_iff_eq] at hc
    rcases hc with ((hc | hc) | rfl) | rfl
    · have h₁ : 65 ≤ c.toNat := hc.1
      have h₂ : c.toNat ≤ 90 := hc.2
      omega
    · have h₁ : 97 ≤ c.toNat := hc.1
      have h₂ : c.toNat ≤ 122 := hc.2
      omega
    · decide
    · decide
  rw [isDigit, value?_of_lt hrange.1, if_neg hrange.2]
  rfl

theorem read?_word {cs : List Char} (h : isNameStart c = true)
    (hcs : ∀ d ∈ cs, isNamePart d = true) (hr : Clear rest) :
    read? (c :: (cs ++ rest)) = some (word (c :: cs), rest) := by
  have hrest : ∀ d ∈ rest.head?, isNamePart d = false := fun d hd => (hr d hd).1
  have ne : ∀ d, isNameStart d = false → c ≠ d := by
    rintro d hd rfl
    rw [hd] at h
    cases h
  have hb : Blank.isSeparator c = false := by
    simp [Blank.isSeparator, ne ' ' (by decide), ne '\t' (by decide), ne '\r' (by decide),
      ne '\x0c' (by decide)]
  simp [read?, recognisers, newline?_cons (ne _ (by decide)), blanks?_cons hb,
    comment?_cons (ne _ (by decide)), number?_cons (isDigit_of_isNameStart h),
    string?_cons (ne _ (by decide)), char?_cons (ne _ (by decide)), word?, h,
    takeWhile_append hcs hrest, dropWhile_append hcs hrest]

/-- No class of lexemes before the comments begins with a slash. -/
theorem read?_of_comment? {cs : List Char} {l : Lexeme} (h : comment? cs = some (l, rest)) :
    read? cs = some (l, rest) := by
  cases cs with
  | nil => cases h
  | cons c cs =>
    by_cases hc : c = '/'
    · subst hc
      simp [read?, recognisers, newline?_cons, blanks?_cons, Blank.isSeparator, h]
    · rw [comment?_cons hc] at h
      cases h

/-- A character that begins a number is none of the others. -/
theorem ne_of_isDigit (h : isDigit c = true) {d : Char} (hd : isDigit d = false) : c ≠ d := by
  rintro rfl
  rw [hd] at h
  cases h

/-- No class of lexemes before the numbers begins with a digit. -/
theorem read?_of_number? {cs : List Char} {l : Lexeme} (h : number? cs = some (l, rest)) :
    read? cs = some (l, rest) := by
  cases cs with
  | nil => cases h
  | cons c cs =>
    have hc : isDigit c = true := by
      by_contra hc
      rw [number?_cons (by simpa using hc)] at h
      cases h
    have hb : Blank.isSeparator c = false := by
      simp [Blank.isSeparator, ne_of_isDigit hc (d := ' ') (by decide),
        ne_of_isDigit hc (d := '\t') (by decide), ne_of_isDigit hc (d := '\r') (by decide),
        ne_of_isDigit hc (d := '\x0c') (by decide)]
    simp [read?, recognisers, newline?_cons (ne_of_isDigit hc (by decide)), blanks?_cons hb,
      comment?_cons (ne_of_isDigit hc (by decide)), h]

/-- A row of digits that is not empty. -/
structure Digits (row : List Char) : Prop where
  some : row ≠ []
  all : ∀ c ∈ row, isDigit c = true

theorem read?_integer {row : List Char} (h : Digits row) (hr : Clear rest) :
    read? (row ++ rest) = some (integer row, rest) := by
  have hrest : ∀ d ∈ rest.head?, isDigit d = false := fun d hd => (hr d hd).2.1
  apply read?_of_number?
  unfold number?
  simp only [takeWhile_append h.all hrest, dropWhile_append h.all hrest]
  rw [if_neg (by simpa using h.some)]
  split
  · exact absurd rfl (hr '.' rfl).2.2
  · next mark after _ =>
    -- neither mark of a hexadecimal number, since both are letters
    have hmark : ¬ (mark = 'x' ∨ mark = 'X') := by
      rintro (rfl | rfl)
      · exact absurd (hr 'x' rfl).1 (by decide)
      · exact absurd (hr 'X' rfl).1 (by decide)
    rw [if_neg fun hx => hmark hx.2.1]
  · rfl

/-- The exponents of floats: none at all, or a mark, an optional sign and digits. -/
inductive IsExponent : List Char → Prop where
  | absent : IsExponent []
  | present {mark : Char} {sign row : List Char} (known : mark = 'e' ∨ mark = 'E')
      (signed : sign = [] ∨ sign = ['+'] ∨ sign = ['-']) (digits : Digits row) :
      IsExponent (mark :: (sign ++ row))

/-- Digits have no sign of their own. -/
theorem sign_append_digits {s row : List Char} (hs : s = [] ∨ s = ['+'] ∨ s = ['-'])
    (hrow : Digits row) (rest : List Char) : sign (s ++ row ++ rest) = (s, row ++ rest) := by
  rcases hs with rfl | rfl | rfl
  · cases row with
    | nil => exact absurd rfl hrow.some
    | cons d row =>
      have hd := hrow.all d List.mem_cons_self
      unfold sign
      split
      · next heq =>
        cases heq
        exact absurd hd (by decide)
      · next heq =>
        cases heq
        exact absurd hd (by decide)
      · rfl
  · rfl
  · rfl

theorem exponent_append_clear {e : List Char} (he : IsExponent e) (hr : Clear rest) :
    exponent (e ++ rest) = (e, rest) := by
  have hrest : ∀ d ∈ rest.head?, isDigit d = false := fun d hd => (hr d hd).2.1
  cases he with
  | absent =>
    cases rest with
    | nil => rfl
    | cons c rest =>
      have hc := (hr c rfl).1
      have hmark : ¬ (c = 'e' ∨ c = 'E') := by
        rintro (rfl | rfl)
        · exact absurd hc (by decide)
        · exact absurd hc (by decide)
      rw [List.nil_append, exponent]
      exact if_neg fun hx => hmark hx.1
  | @present mark s row hmark hs hrow =>
    rw [List.cons_append, exponent]
    simp only [sign_append_digits hs hrow, takeWhile_append hrow.all hrest,
      dropWhile_append hrow.all hrest]
    exact if_pos ⟨hmark, by simpa using hrow.some⟩

theorem read?_float {whole fraction e : List Char} (hw : Digits whole) (hf : Digits fraction)
    (he : IsExponent e) (hr : Clear rest) :
    read? ((float whole fraction e).text ++ rest) = some (float whole fraction e, rest) := by
  have hpoint : ∀ d ∈ ('.' :: (fraction ++ (e ++ rest))).head?, isDigit d = false := by
    intro d hd
    cases hd
    decide
  have hbehind : ∀ d ∈ (e ++ rest).head?, isDigit d = false := by
    intro d hd
    cases he with
    | absent => exact (hr d hd).2.1
    | present hmark =>
      cases hd
      rcases hmark with rfl | rfl <;> decide
  apply read?_of_number?
  simp only [text, List.append_assoc, List.cons_append]
  unfold number?
  simp only [takeWhile_append hw.all hpoint, dropWhile_append hw.all hpoint,
    takeWhile_append hf.all hbehind, dropWhile_append hf.all hbehind, exponent_append_clear he hr]
  rw [if_neg (by simpa using hw.some), if_neg (by simpa using hf.some)]

/-- The text ends, or goes on with a blank or a newline. -/
def Halts (rest : List Char) : Prop :=
  ∀ c ∈ rest.head?, c = '\n' ∨ Blank.isSeparator c = true

theorem halts_cons (h : c = '\n' ∨ Blank.isSeparator c = true) (rest : List Char) :
    Halts (c :: rest) := by
  intro d hd
  cases hd
  exact h

theorem Halts.cases (h : Halts rest) : rest = [] ∨
    ∃ c tail, rest = c :: tail ∧ (c = '\n' ∨ c = ' ' ∨ c = '\t' ∨ c = '\r' ∨ c = '\x0c') := by
  cases rest with
  | nil => exact Or.inl rfl
  | cons c tail =>
    have hc := h c rfl
    simp only [Blank.isSeparator, Bool.or_eq_true, beq_iff_eq, or_assoc] at hc
    exact Or.inr ⟨c, tail, rfl, hc⟩

/-- No word or number goes on with a blank. -/
theorem Halts.clear (h : Halts rest) : Clear rest := by
  obtain rfl | ⟨c, tail, rfl, hc⟩ := h.cases
  · exact clear_nil
  · apply clear_cons
    rcases hc with rfl | rfl | rfl | rfl | rfl <;> decide

theorem read?_op {sign : List Char} (h : sign ∈ operators) (hr : Halts rest) :
    read? (sign ++ rest) = some (op sign, rest) := by
  simp only [operators, List.mem_cons, List.not_mem_nil, or_false] at h
  -- the signs that others begin with are told apart by the first character behind them
  obtain rfl | ⟨c, tail, rfl, hc⟩ := hr.cases
  · rcases h with
      rfl | rfl | rfl | rfl | rfl | rfl | rfl | rfl | rfl | rfl | rfl | rfl | rfl | rfl <;> rfl
  · rcases hc with rfl | rfl | rfl | rfl | rfl <;>
      rcases h with rfl | rfl | rfl | rfl | rfl | rfl | rfl | rfl | rfl | rfl | rfl | rfl | rfl |
        rfl <;> rfl

/-- A minus sign is a sign of its own. -/
theorem read?_minus : read? ('-' :: rest) = some (op ['-'], rest) := rfl

theorem read?_punct (h : c ∈ punctuation) (hr : Halts rest) :
    read? (c :: rest) = some (punct c, rest) := by
  simp only [punctuation, List.mem_cons, List.not_mem_nil, or_false] at h
  obtain rfl | ⟨d, tail, rfl, hd⟩ := hr.cases
  · rcases h with rfl | rfl | rfl | rfl | rfl | rfl | rfl | rfl | rfl | rfl <;> rfl
  · rcases hd with rfl | rfl | rfl | rfl | rfl <;>
      rcases h with rfl | rfl | rfl | rfl | rfl | rfl | rfl | rfl | rfl | rfl <;> rfl

/-- Brackets and commas do not go on with anything. -/
theorem read?_bracket (h : c ∈ ['\x7b', '\x7d', '[', ']', ',']) :
    read? (c :: rest) = some (punct c, rest) := by
  simp only [List.mem_cons, List.not_mem_nil, or_false] at h
  rcases h with rfl | rfl | rfl | rfl | rfl <;> rfl

/-! ## Literals -/

/-- The insides of literals: any character behind a backslash, and any other one but the closing
mark and a newline. -/
inductive Quotable (mark : Char) : List Char → Prop where
  | nil : Quotable mark []
  | pair {c : Char} {cs : List Char} (rest : Quotable mark cs) : Quotable mark ('\\' :: c :: cs)
  | plain {c : Char} {cs : List Char} (slash : c ≠ '\\') (closing : c ≠ mark) (newline : c ≠ '\n')
      (rest : Quotable mark cs) : Quotable mark (c :: cs)

theorem Quotable.stringContent? {inside : List Char} (h : Quotable '"' inside)
    (after : List Char) : stringContent? (inside ++ '"' :: after) = some (inside, after) := by
  induction h with
  | nil => rfl
  | pair _ ih => simp [Lexeme.stringContent?, ih]
  | plain slash closing newline _ ih =>
    rw [List.cons_append, Lexeme.stringContent?, if_neg newline, ih]
    · rfl
    · exact closing
    · exact fun he _ => slash he
    · exact fun _ _ he _ => slash he

/-- The texts that characters may be written as inside a literal: each as itself, unless it is a
backslash, the closing mark or a newline, or as an escape sequence that means it. -/
inductive Literal (mark : Char) : (cs inside : List Char) → Prop where
  | nil : Literal mark [] []
  | raw {c : Char} {cs inside : List Char} (slash : c ≠ '\\') (closing : c ≠ mark)
      (newline : c ≠ '\n') (rest : Literal mark cs inside) : Literal mark (c :: cs) (c :: inside)
  | escape {key c : Char} {cs inside : List Char} (meaning : Escape.meaning? key = some c)
      (rest : Literal mark cs inside) : Literal mark (c :: cs) ('\\' :: key :: inside)

namespace Literal

variable {mark : Char} {cs inside : List Char}

theorem quotable (h : Literal mark cs inside) : Quotable mark inside := by
  induction h with
  | nil => exact .nil
  | raw slash closing newline _ ih => exact .plain slash closing newline ih
  | escape _ _ ih => exact .pair ih

/-- Reading undoes the writing of a literal. -/
theorem decode (h : Literal mark cs inside) : Escape.decode inside = .ok cs := by
  induction h with
  | nil => rfl
  | raw slash _ _ _ ih =>
    rw [Escape.decode_cons_of_ne slash, ih]
    rfl
  | escape meaning _ ih =>
    rw [Escape.decode, meaning]
    simp only [ih]
    rfl

theorem quotedItem? {c : Char} (h : Literal mark [c] inside) (after : List Char) :
    quotedItem? mark (inside ++ after) = some (inside, after) := by
  cases h with
  | escape _ rest =>
    cases rest
    rfl
  | raw slash closing newline rest =>
    cases rest
    unfold Lexeme.quotedItem?
    split
    · simp_all
    · simp_all
    · simp_all
    · simp_all

/-- One of the ways in which a literal may be written. -/
theorem escaped (hm : mark = '"' ∨ mark = '\'') (cs : List Char) :
    Literal mark cs (cs.flatMap (Piece.escaped mark)) := by
  induction cs with
  | nil => exact .nil
  | cons c cs ih =>
    rw [List.flatMap_cons]
    by_cases hn : c = '\n'
    · subst hn
      exact .escape rfl ih
    by_cases hq : c = '\\' ∨ c = mark
    · have hself : Piece.escaped mark c = ['\\', c] := by rw [Piece.escaped, if_neg hn, if_pos hq]
      have hmeaning : Escape.meaning? c = some c := by
        rcases hq with rfl | rfl
        · rfl
        · rcases hm with rfl | rfl <;> rfl
      rw [hself]
      exact .escape hmeaning ih
    · have hself : Piece.escaped mark c = [c] := by rw [Piece.escaped, if_neg hn, if_neg hq]
      rw [hself]
      exact .raw (fun he => hq (Or.inl he)) (fun he => hq (Or.inr he)) hn ih

end Literal

theorem read?_string {inside : List Char} (h : Quotable '"' inside) :
    read? ((string inside).text ++ rest) = some (string inside, rest) := by
  have hstring : string? ('"' :: (inside ++ '"' :: rest)) = some (string inside, rest) := by
    simp [string?, h.stringContent?]
  simp [text, read?, recognisers, newline?_cons, blanks?_cons, comment?_cons, number?_cons,
    hstring, Blank.isSeparator, show DecimalDigit.isDigit '"' = false by decide]

theorem read?_char {inside : List Char} (h : Literal '\'' [c] inside) :
    read? ((char inside).text ++ rest) = some (char inside, rest) := by
  have hchar : char? ('\'' :: (inside ++ '\'' :: rest)) = some (char inside, rest) := by
    simp [char?, h.quotedItem?]
  simp [text, read?, recognisers, newline?_cons, blanks?_cons, comment?_cons, number?_cons,
    string?_cons, hchar, Blank.isSeparator, show DecimalDigit.isDigit '\'' = false by decide]

end Lexeme

namespace Piece

open Lexeme

/-- The texts that a piece may be written as. -/
inductive Written : Piece → List Char → Prop where
  | name {text : String} (known : Token.isName text = true) : Written (name text) text.toList
  | keyword {text : String} (known : text ∈ Token.keywords) : Written (keyword text) text.toList
  | integer {row : List Char} (digits : Digits row) : Written ⟨.integer, String.ofList row⟩ row
  | float {whole fraction e : List Char} (digits : Digits whole) (behind : Digits fraction)
      (scale : IsExponent e) :
      Written ⟨.float, String.ofList (Lexeme.float whole fraction e).text⟩
        (Lexeme.float whole fraction e).text
  | string {cs inside : List Char} (literal : Literal '"' cs inside) :
      Written ⟨.string, String.ofList cs⟩ (Lexeme.string inside).text
  | char {c : Char} {inside : List Char} (literal : Literal '\'' [c] inside) :
      Written ⟨.char, String.ofList [c]⟩ (Lexeme.char inside).text
  | op {sign : List Char} (known : sign ∈ operators) : Written (op (String.ofList sign)) sign
  | punct {c : Char} (known : c ∈ punctuation) : Written (punct c.toString) [c]

/-- A word ends where the text is clear. -/
theorem read?_of_isWord {text : String} (h : Token.isWord text = true) {rest : List Char}
    (hr : Clear rest) : Lexeme.read? (text.toList ++ rest) = some (.word text.toList, rest) := by
  unfold Token.isWord at h
  split at h
  · cases h
  · next c cs hc =>
    rw [hc]
    obtain ⟨hstart, hparts⟩ := Bool.and_eq_true_iff.mp h
    exact read?_word hstart (fun d hd => List.all_eq_true.mp hparts d hd) hr

/-- A piece that is no sign ends where the text is clear, and the lexeme is the token of the
piece. -/
theorem Written.read?_of_clear {p : Piece} {own : List Char} (h : p.Written own)
    (hs : p.isSign = false) {rest : List Char} (hr : Clear rest) :
    ∃ l, Lexeme.read? (own ++ rest) = some (l, rest) ∧
      ∀ place, Token.ofLexeme place l = .ok (some ⟨p.kind, p.text, place⟩) := by
  cases h with
  | @name text known =>
    refine ⟨_, read?_of_isWord (Token.isWord_of_isName known) hr, ?_⟩
    intro place
    have hname : Token.keywords.contains text = false := by simpa [Token.isName] using
      (Bool.and_eq_true_iff.mp known).2
    simp only [Token.ofLexeme, String.ofList_toList, hname]
    rfl
  | @keyword text known =>
    refine ⟨_, read?_of_isWord (Token.isWord_of_mem_keywords known) hr, ?_⟩
    intro place
    have hkeyword : Token.keywords.contains text = true := List.contains_iff_mem.mpr known
    simp only [Token.ofLexeme, String.ofList_toList, hkeyword]
    rfl
  | integer digits => exact ⟨_, read?_integer digits hr, fun place => rfl⟩
  | float digits behind scale => exact ⟨_, read?_float digits behind scale hr, fun place => rfl⟩
  | string literal =>
    refine ⟨_, read?_string literal.quotable, ?_⟩
    intro place
    simp [Token.ofLexeme, Token.unescape, literal.decode, Except.map]
  | char literal =>
    refine ⟨_, read?_char literal, ?_⟩
    intro place
    simp [Token.ofLexeme, Token.unescape, literal.decode, Except.map]
  | op => cases hs
  | punct => cases hs

/-- A piece ends where a blank comes, and the lexeme is the token of the piece. -/
theorem Written.read? {p : Piece} {own : List Char} (h : p.Written own) {rest : List Char}
    (hr : Halts rest) :
    ∃ l, Lexeme.read? (own ++ rest) = some (l, rest) ∧
      ∀ place, Token.ofLexeme place l = .ok (some ⟨p.kind, p.text, place⟩) := by
  by_cases hs : p.isSign = false
  · exact h.read?_of_clear hs hr.clear
  cases h with
  | op known => exact ⟨_, read?_op known hr, fun place => rfl⟩
  | punct known => exact ⟨_, read?_punct known hr, fun place => rfl⟩
  | _ => exact absurd rfl hs

/-- A piece with a text of its kind is written as one of the texts that it may be written as. -/
theorem Proper.written {p : Piece} (h : p.Proper) : p.Written p.write := by
  obtain ⟨kind, text⟩ := p
  cases kind with
  | name => exact .name h
  | keyword => exact .keyword h
  | integer =>
    have hrow : Digits text.toList :=
      ⟨h.1, fun c hc => Text.DecimalDigit.isDigit_of_isDigit (h.2 c hc)⟩
    have hwritten := Written.integer hrow
    rwa [String.ofList_toList] at hwritten
  | float => exact h.elim
  | string =>
    have hwritten := Written.string (.escaped (Or.inl rfl) text.toList)
    rwa [String.ofList_toList] at hwritten
  | char =>
    obtain ⟨c, rfl⟩ := h
    have hwritten := Written.char (.escaped (Or.inr rfl) [c])
    rw [write, String.toList_ofList]
    exact hwritten
  | op =>
    have hwritten := Written.op h
    rwa [String.ofList_toList] at hwritten
  | punct =>
    obtain ⟨c, hc, rfl⟩ := h
    rw [write, Char.toString, String.toList_singleton]
    exact .punct hc

end Piece

end Scriptlet
