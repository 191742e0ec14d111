import Scriptlet.Proofs.Token.Place

/-!
# Tokens laid out with gaps between them

Pieces are laid out one behind the other, each in any of the ways in which it may be written, with
a gap between neighbours that begins with a blank or a newline. `Token.scan_laid`: scanning such a
text gives the pieces back, however they are laid out.

`Gap.scans` says that a gap is passed over wherever it stands. A gap needs nothing of the text
behind it, and a piece needs only that a blank or a newline comes next, so the pieces can be put
together one after the other.
-/

namespace Scriptlet

open Lexeme Token Text.DecimalDigit

/-! ## Gaps are passed over -/

namespace Lexeme

/-- A comment goes up to its first end mark. -/
theorem closeComment?_append_end {inside : List Char} (h : ¬ ['*', '/'] <:+: inside)
    (rest : List Char) :
    closeComment? (inside ++ '*' :: '/' :: rest) = some (inside ++ ['*', '/'], rest) := by
  induction inside with
  | nil => rfl
  | cons c inside ih =>
    have hrest : ¬ ['*', '/'] <:+: inside := fun hin => h (List.infix_cons hin)
    have hopen : ∀ after, c = '*' → inside ++ '*' :: '/' :: rest = '/' :: after → False := by
      rintro after rfl heq
      cases inside with
      | nil => cases heq
      | cons d inside =>
        cases heq
        exact h ⟨[], inside, rfl⟩
    rw [List.cons_append, closeComment?.eq_3 _ _ hopen, ih hrest]
    rfl

theorem read?_block {inside : List Char} (h : ¬ ['*', '/'] <:+: inside) (rest : List Char) :
    read? ('/' :: '*' :: (inside ++ '*' :: '/' :: rest)) =
      some (blockComment (inside ++ ['*', '/']), rest) := by
  apply read?_of_comment?
  rw [comment?, closeComment?_append_end h]

theorem read?_line {line : List Char} (h : '\n' ∉ line) (rest : List Char) :
    read? ('/' :: '/' :: (line ++ '\n' :: rest)) =
      some (lineComment line, '\n' :: rest) := by
  have hline : ∀ c ∈ line, (c != '\n') = true := by
    intro c hc
    rw [bne_iff_ne]
    rintro rfl
    exact h hc
  have hend : ∀ c ∈ ('\n' :: rest).head?, (c != '\n') = false := by
    intro c hc
    cases hc
    rfl
  apply read?_of_comment?
  rw [comment?, takeWhile_append hline hend, dropWhile_append hline hend]

end Lexeme

/-- A lexeme of which no token comes is passed over. -/
theorem Token.Scans.passed {cs : List Char} {l : Lexeme} {follow : List Char → Prop}
    (hl : ∀ place, ofLexeme place l = .ok none)
    (h : ∀ rest, follow rest → Lexeme.read? (cs ++ rest) = some (l, rest)) :
    Scans cs [] follow := by
  intro rest hfollow cursor found
  exact ⟨[], _, scanFrom_lexeme (h rest hfollow) (hl cursor.position) found, rfl⟩

/-- Gaps are passed over, whatever stands behind them. -/
theorem Gap.scans {cs : List Char} (h : Gap cs) : Scans cs [] anyText := by
  induction h with
  | nil => exact .nil
  | newline _ ih => exact Scans.newline.next ih
  | blank hc _ ih => exact (Scans.separator hc).next ih
  | @line text cs hn _ ih =>
    -- the newline is passed over by itself, and the comment needs it to come next
    have hcomment : Scans ('/' :: '/' :: text) [] fun rest => ∃ tail, rest = '\n' :: tail := by
      apply Scans.passed (l := .lineComment text) fun _ => rfl
      rintro _ ⟨tail, rfl⟩
      exact read?_line hn tail
    exact hcomment.append (Scans.newline.next ih) fun rest _ => ⟨cs ++ rest, rfl⟩
  | @block inside cs hi _ ih =>
    have hcomment : Scans ('/' :: '*' :: (inside ++ ['*', '/'])) [] anyText := by
      apply Scans.passed (l := .blockComment (inside ++ ['*', '/'])) fun _ => rfl
      intro rest _
      simpa using read?_block hi rest
    simpa using hcomment.next ih

/-! ## Texts laid out -/

/-- The text is a gap that begins with a blank or a newline. -/
structure Separator (sep : List Char) : Prop where
  gap : Gap sep
  some : sep ≠ []
  halts : Halts sep

theorem Separator.halts_append {sep : List Char} (h : Separator sep) (rest : List Char) :
    Halts (sep ++ rest) := by
  cases sep with
  | nil => exact absurd rfl h.some
  | cons c sep => exact halts_cons (h.halts c rfl) (sep ++ rest)

/-- The text is the pieces one behind the other, each in one of the ways in which it may be written,
with a separator between neighbours. Behind the last piece there may be one as well. -/
inductive Laid : List Piece → List Char → Prop where
  | nil : Laid [] []
  | last {p : Piece} {own : List Char} (written : p.Written own) : Laid [p] own
  | cons {p : Piece} {ps : List Piece} {own sep text : List Char} (written : p.Written own)
      (between : Separator sep) (next : Laid ps text) : Laid (p :: ps) (own ++ (sep ++ text))

theorem Laid.scans {ps : List Piece} {text : List Char} (h : Laid ps text) :
    Scans text ps Halts := by
  induction h with
  | nil => exact .nil
  | last written => exact .written written
  | cons written between _ ih =>
    have hrest := between.gap.scans.next ih
    refine (Scans.written written).append hrest ?_
    intro rest _
    rw [List.append_assoc]
    exact between.halts_append _

/-- Scanning undoes writing, however the pieces are written and whatever separates them. -/
theorem Token.scan_laid {pieces : List Piece} {text : List Char} (h : Laid pieces text) :
    ∃ ts, scan (String.ofList text) = (ts, none) ∧ ts.map piece = pieces := by
  have hscans := h.scans
  rw [← String.toList_ofList (l := text)] at hscans
  exact scan_of_scans hscans nofun

/-- A sign for division before a comment, a zero before a line that begins with an `x`, a comment
up to the end of its line, a float with an exponent, and a literal with escape sequences. -/
theorem Token.scan_laid_mixed :
    let pieces : List Piece := [.op "/", ⟨.integer, "0"⟩, .name "x", ⟨.float, "1.5E-3"⟩,
      ⟨.string, "\"\n'"⟩, .punct "."]
    let text : List Char := ['/', ' ', '/', '*', '*', '*', '/', '0', '\n', 'x', '\t', '/', '/', '1',
      '\n', '1', '.', '5', 'E', '-', '3', ' ', '"', '\\', '"', '\\', 'n', '\'', '"', '\n', '.']
    Laid pieces text ∧
      ∃ ts, scan (String.ofList text) = (ts, none) ∧ ts.map piece = pieces := by
  intro pieces text
  have digits : ∀ c, isDigit c = true → Digits [c] := fun c hc => ⟨by simp, by simpa using hc⟩
  have newline : Separator ['\n'] := ⟨.newline .nil, by decide, halts_cons (by decide) _⟩
  have blank : Separator [' '] := ⟨.blank rfl .nil, by decide, halts_cons (by decide) _⟩
  have block : Separator [' ', '/', '*', '*', '*', '/'] := by
    have hcomment : Gap ('/' :: '*' :: (['*'] ++ '*' :: '/' :: [])) := .block (by decide) .nil
    exact ⟨.blank rfl hcomment, by decide, halts_cons (by decide) _⟩
  have line : Separator ['\t', '/', '/', '1', '\n'] := by
    have hcomment : Gap ('/' :: '/' :: (['1'] ++ '\n' :: [])) := .line (by decide) .nil
    exact ⟨.blank rfl hcomment, by decide, halts_cons (by decide) _⟩
  have zero : Piece.Written ⟨.integer, "0"⟩ ['0'] := .integer (digits '0' (by decide))
  have float : Piece.Written ⟨.float, "1.5E-3"⟩ (Lexeme.float ['1'] ['5'] ['E', '-', '3']).text :=
    .float (digits '1' (by decide)) (digits '5' (by decide))
      (.present (Or.inr rfl) (Or.inr (Or.inr rfl)) (digits '3' (by decide)))
  have string :
      Piece.Written ⟨.string, "\"\n'"⟩ (Lexeme.string ['\\', '"', '\\', 'n', '\'']).text :=
    .string (.escape rfl (.escape rfl (.raw (by decide) (by decide) (by decide) .nil)))
  have point : Piece.Written (.punct ".") ['.'] := Piece.Written.punct (c := '.') (by decide)
  have slash : Piece.Written (.op "/") ['/'] := .op (by decide)
  have word : Piece.Written (.name "x") ['x'] := .name (by decide)
  have hlaid : Laid pieces text :=
    .cons slash block (.cons zero newline (.cons word line (.cons float blank
      (.cons string newline (.last point)))))
  exact ⟨hlaid, scan_laid hlaid⟩

end Scriptlet
