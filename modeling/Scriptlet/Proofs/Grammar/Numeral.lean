import Scriptlet.Proofs.Grammar.Roundtrip
import Scriptlet.Proofs.Number.Hexadecimal
import Scriptlet.Proofs.Token.Place

/-!
# Integer literals

An integer literal is written in decimal or in hexadecimal (`Token.Numeral`). Wherever it stands, it
is one token, and the text of the token is in decimal: a hexadecimal number is read, and its value
is written with the digits that the grammar reads again (`Token.Numeral.read?`). From there on the
spelling is forgotten, so a literal means its number in whatever way it is written, and the opposite
number behind a minus sign (`Grammar.integer_spellings_agree`).

On the way the number is written once in decimal, so it must not have more digits than that allows.
-/

namespace Scriptlet

open Number.Integer

namespace Lexeme

open Text.DecimalDigit

variable {mark : Char} {row rest : List Char}

theorem isNamePart_of_isHexDigit {c : Char} (h : isHexDigit c = true) : isNamePart c = true := by
  have hranges : (decide (65 ≤ c.val ∧ c.val ≤ 90) || 97 ≤ c.val && c.val ≤ 122 ||
      48 ≤ c.val && c.val ≤ 57) = true := by
    simp only [Bool.or_eq_true, Bool.and_eq_true, decide_eq_true_eq]
    rcases isHexDigit_iff.mp h with hdigit | hlower | hupper
    · exact Or.inr hdigit
    · exact Or.inl (Or.inr ⟨hlower.1, Nat.le_trans hlower.2 (by decide)⟩)
    · exact Or.inl (Or.inl ⟨hupper.1, Nat.le_trans hupper.2 (by decide)⟩)
  have hword : c.isAlphanum = true := hranges
  simp [isNamePart, hword]

/-- A hexadecimal number ends where the text is clear. Its zero alone would be an integer, which the
mark behind it prevents. -/
theorem read?_hex (h : IsHex mark row) (hr : Clear rest) :
    read? ((hex mark row).text ++ rest) = some (hex mark row, rest) := by
  have hzero : ∀ c ∈ ['0'], isDigit c = true := List.forall_mem_singleton.mpr (by decide)
  have hbehind : ∀ c ∈ (mark :: (row ++ rest)).head?, isDigit c = false := by
    intro c hc
    cases hc
    rcases h.mark with rfl | rfl <;> decide
  have hrest : ∀ c ∈ rest.head?, isHexDigit c = false := by
    intro c hc
    by_contra hdigit
    have hpart := isNamePart_of_isHexDigit (Bool.eq_true_of_not_eq_false hdigit)
    rw [(hr c hc).1] at hpart
    cases hpart
  -- a point behind the zero would make it the whole part of a float
  have hpoint : mark ≠ '.' := by rcases h.mark with rfl | rfl <;> decide
  apply read?_of_number?
  show number? (['0'] ++ mark :: (row ++ rest)) = _
  unfold number?
  simp only [takeWhile_append hzero hbehind, dropWhile_append hzero hbehind,
    takeWhile_append h.digits hrest, dropWhile_append h.digits hrest]
  rw [if_neg (by simp), if_pos ⟨trivial, h.mark, by simpa using h.some⟩]

end Lexeme

namespace Token

open Lexeme

/-- The texts of an integer literal: the digits of the number in decimal, or a zero, a mark and one
of its spellings in hexadecimal. -/
inductive Numeral (n : Nat) : List Char → Prop where
  | decimal : Numeral n (digits n)
  | hexadecimal {mark : Char} {row : List Char} (known : mark = 'x' ∨ mark = 'X')
      (spells : Hexadecimal n row) : Numeral n ('0' :: mark :: row)

namespace Numeral

variable {n : Nat} {own : List Char}

/-- An integer literal is one lexeme, up to where the text is clear, and the text of its token is in
decimal. -/
theorem read? (h : Numeral n own) (short : (digits n).length ≤ digitLimit) {rest : List Char}
    (hr : Clear rest) :
    ∃ l, Lexeme.read? (own ++ rest) = some (l, rest) ∧
      ∀ place, ofLexeme place l = .ok (some ⟨.integer, String.ofList (digits n), place⟩) := by
  cases h with
  | decimal =>
    have hdigits : Digits (digits n) :=
      ⟨Nat.toDigits_ne_nil, fun c hc =>
        Text.DecimalDigit.isDigit_of_isDigit (isDigit_of_mem_digits hc)⟩
    exact ⟨.integer (digits n), read?_integer hdigits hr, fun _ => rfl⟩
  | @hexadecimal mark row known spells =>
    obtain ⟨hne, hdigits, hnumber⟩ := hexadecimal_iff.mp spells
    refine ⟨.hex mark row, read?_hex ⟨known, hne, hdigits⟩ hr, ?_⟩
    intro place
    have htext : text? (hexNumber row) = some (String.ofList (digits n)) := by
      rw [hnumber]
      exact text?_of_length_le short
    rw [ofLexeme, htext]

/-- The piece of an integer literal does not depend on how it is written. -/
theorem scans (h : Numeral n own) (short : (digits n).length ≤ digitLimit) :
    Scans own [⟨.integer, String.ofList (digits n)⟩] Clear :=
  .token fun _ hr => h.read? short hr

theorem scan_eq (h : Numeral n own) (short : (digits n).length ≤ digitLimit) :
    scan (String.ofList own) = ([⟨.integer, String.ofList (digits n), .start⟩], none) := by
  obtain ⟨l, hread, htoken⟩ := h.read? short clear_nil
  rw [List.append_nil] at hread
  rw [scan, String.toList_ofList, scanFrom_lexeme hread (htoken _), scanFrom_nil]
  rfl

end Numeral

end Token

namespace Grammar

open Reader

variable {d depth n : Nat} {node : Node} {own : List Char} {ps : List Piece}

/-- An operand that is the whole text is an expression. -/
theorem readsWhole_of_operand {text : String} (hscans : Token.Scans text.toList ps Lexeme.Clear)
    (h : Takes (operand d) ps Stops (Like node)) :
    ReadsWhole (expression (d + 2)) text node :=
  readsWhole_of_takes hscans (expressionOf_done (chainOf_rests h 1))

/-- A literal that can be written in decimal is read as its number, however it is written. -/
theorem readsWhole_numeral (h : Token.Numeral n own) (short : (digits n).length ≤ digitLimit)
    (line : Nat) :
    ReadsWhole (expression (depth + 4)) (String.ofList own) (.integer line n) := by
  have written : (text? (n : Int)).isSome = true := isSome_text?_iff.mpr short
  have hscans := h.scans short
  rw [← String.toList_ofList (l := own)] at hscans
  exact readsWhole_of_operand hscans (opens_integer (d := depth) written).operand

/-- A minus sign before a literal gives the opposite number. -/
theorem readsWhole_minus_numeral (h : Token.Numeral n own)
    (short : (digits n).length ≤ digitLimit) (line : Nat) :
    ReadsWhole (expression (depth + 4)) ("-" ++ String.ofList own) (.integer line (-n)) := by
  have written : (text? (n : Int)).isSome = true := isSome_text?_iff.mpr short
  have hread : read? (String.ofList (digits n)).toList = some n := by
    rw [String.toList_ofList]
    exact read?_digits written
  have hscans := Token.Scans.minus.next (h.scans short)
  rw [← String.toList_ofList (l := ['-'] ++ own), String.ofList_append] at hscans
  refine readsWhole_of_operand (d := depth + 2) hscans ?_
  exact operandOf_minus line hread fun m hm => applied_stops hm

/-- A number that can be written in decimal is spelled in hexadecimal with either mark, with letters
of either case and with any number of zeros in front. All these texts scan to the token of its
decimal text, and they are read to their end as the number, or as its opposite if a minus sign
stands in front. -/
theorem integer_spellings_agree (n : Nat) (short : (digits n).length ≤ digitLimit) (mark : Char)
    (known : mark = 'x' ∨ mark = 'X') (row : List Char) (spells : Hexadecimal n row)
    (depth : Nat) :
    let decimal := String.ofList (digits n)
    let hexadecimal := String.ofList ('0' :: mark :: row)
    Token.scan decimal = ([⟨.integer, decimal, .start⟩], none) ∧
    Token.scan hexadecimal = ([⟨.integer, decimal, .start⟩], none) ∧
    ∀ text ∈ [decimal, hexadecimal],
      ReadsWhole (expression (depth + 4)) text (.integer 1 n) ∧
      ReadsWhole (expression (depth + 4)) ("-" ++ text) (.integer 1 (-n)) := by
  intro decimal hexadecimal
  have hdecimal : Token.Numeral n (digits n) := .decimal
  have hhexadecimal : Token.Numeral n ('0' :: mark :: row) := .hexadecimal known spells
  refine ⟨hdecimal.scan_eq short, hhexadecimal.scan_eq short, ?_⟩
  simp only [List.forall_mem_cons]
  refine ⟨⟨?_, ?_⟩, ⟨?_, ?_⟩, nofun⟩
  · exact readsWhole_numeral hdecimal short 1
  · exact readsWhole_minus_numeral hdecimal short 1
  · exact readsWhole_numeral hhexadecimal short 1
  · exact readsWhole_minus_numeral hhexadecimal short 1

/-- Letters of both cases behind two zeros. -/
theorem spellings_of_48879_agree :
    (digits 48879).length ≤ digitLimit ∧ Hexadecimal 48879 ['0', '0', 'b', 'E', 'e', 'F'] ∧
    Token.scan "48879" = ([⟨.integer, "48879", .start⟩], none) ∧
    Token.scan "0X00bEeF" = ([⟨.integer, "48879", .start⟩], none) ∧
    ReadsWhole (expression 4) "0X00bEeF" (.integer 1 48879) ∧
    ReadsWhole (expression 4) "-0X00bEeF" (.integer 1 (-48879)) := by
  have short : (digits 48879).length ≤ digitLimit := by
    unfold digitLimit
    decide
  have spells : Hexadecimal 48879 ['0', '0', 'b', 'E', 'e', 'F'] :=
    .zero (.zero (.digits (by decide)))
  obtain ⟨hdecimal, hhexadecimal, hread⟩ :=
    integer_spellings_agree 48879 short 'X' (Or.inr rfl) _ spells 0
  obtain ⟨hplain, hminus⟩ := hread "0X00bEeF" (by decide)
  exact ⟨short, spells, hdecimal, hhexadecimal, hplain, hminus⟩

end Grammar

end Scriptlet
