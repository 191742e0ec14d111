import Scriptlet.Proofs.Token.Spell

/-!
# Texts and their tokens

`Token.Scans cs ps follow` : wherever a text goes on with `cs`, and behind that as `follow` says,
scanning finds the pieces `ps` and goes on behind `cs`. Gaps scan to no pieces. The rules put texts
one behind the other; a word or number has to end where the next text begins, brackets and literals
of characters end by themselves.

`Token.scan_render` : scanning pieces that were written with a blank behind each gives them back.
-/

namespace Scriptlet.Token

open Piece Lexeme

theorem scanFrom_nil (cursor : Cursor) (found : List Token) :
    scanFrom cursor [] found = (found.reverse, none) := by
  rw [scanFrom]
  rfl

theorem scanFrom_lexeme {cs rest : List Char} {l : Lexeme} (h : Lexeme.read? cs = some (l, rest))
    {cursor : Cursor} {o : Option Token} (ho : ofLexeme cursor.position l = .ok o)
    (found : List Token) :
    scanFrom cursor cs found = scanFrom (cursor.past l) rest (o.toList ++ found) := by
  rw [scanFrom]
  split
  · next hnone =>
    rw [h] at hnone
    cases hnone
  · next lexeme after hsome =>
    rw [h] at hsome
    cases hsome
    rw [ho]
    cases o <;> rfl

/-- Scanning stops where no lexeme begins. -/
theorem scanFrom_unexpected {c : Char} {rest : List Char} (h : Lexeme.read? (c :: rest) = none)
    (cursor : Cursor) (found : List Token) :
    scanFrom cursor (c :: rest) found =
      (found.reverse, some (.misread (.unexpectedCharacter c) cursor.position)) := by
  rw [scanFrom]
  split
  · rfl
  · next hsome =>
    rw [h] at hsome
    cases hsome

/-- Scanning stops at a lexeme of which no token can come. -/
theorem scanFrom_refused {cs rest : List Char} {l : Lexeme} (h : Lexeme.read? cs = some (l, rest))
    {cursor : Cursor} {f : Fault} (ho : ofLexeme cursor.position l = .error f)
    (found : List Token) : scanFrom cursor cs found = (found.reverse, some f) := by
  rw [scanFrom]
  split
  · next hnone =>
    rw [h] at hnone
    cases hnone
  · next lexeme after hsome =>
    rw [h] at hsome
    cases hsome
    rw [ho]

/-- The tokens found before stand in front of those still to be found. -/
theorem scanFrom_found (cursor : Cursor) (cs : List Char) (found : List Token) :
    scanFrom cursor cs found =
      (found.reverse ++ (scanFrom cursor cs []).1, (scanFrom cursor cs []).2) := by
  cases hr : Lexeme.read? cs with
  | none =>
    cases cs with
    | nil => simp [scanFrom_nil]
    | cons c rest => simp [scanFrom_unexpected hr]
  | some result =>
    obtain ⟨l, rest⟩ := result
    cases ho : ofLexeme cursor.position l with
    | error f => simp [scanFrom_refused hr ho]
    | ok o =>
      have hfound := scanFrom_found (cursor.past l) rest (o.toList ++ found)
      have hown := scanFrom_found (cursor.past l) rest (o.toList ++ [])
      rw [scanFrom_lexeme hr ho found, scanFrom_lexeme hr ho [], hfound, hown]
      cases o <;> simp
termination_by cs.length
decreasing_by all_goals exact Lexeme.length_rest_lt hr

/-- A row of blanks takes the cursor as far as its blanks do one by one. -/
theorem past_blanks_cons (cursor : Cursor) (c : Char) (row : List Char) :
    cursor.past (blanks (c :: row)) = (cursor.past (blanks [c])).past (blanks row) := by
  have hoffset : cursor.offset + (row.length + 1) = cursor.offset + 1 + row.length := by omega
  exact congrArg (fun n => Cursor.mk n cursor.line cursor.lineStart) hoffset

/-- Blanks may be passed over one by one, though a row of them is one lexeme. -/
theorem scanFrom_separator {c : Char} (h : Text.Blank.isSeparator c = true) (cursor : Cursor)
    (rest : List Char) (found : List Token) :
    scanFrom cursor (c :: rest) found = scanFrom (cursor.past (blanks [c])) rest found := by
  rw [scanFrom_lexeme (read?_separator h) (o := none) rfl]
  cases rest with
  | nil => rfl
  | cons d rest =>
    by_cases hd : Text.Blank.isSeparator d = true
    · rw [scanFrom_lexeme (read?_separator hd) (o := none) rfl,
        List.takeWhile_cons_of_pos hd, List.dropWhile_cons_of_pos hd, past_blanks_cons]
    · rw [List.takeWhile_cons_of_neg hd, List.dropWhile_cons_of_neg hd]
      rfl

/-- Scanning a text that goes on as it should finds the pieces and goes on behind them. -/
def Scans (cs : List Char) (ps : List Piece) (follow : List Char → Prop) : Prop :=
  ∀ rest, follow rest → ∀ cursor found, ∃ (ts : List Token) (cursor' : Cursor),
    scanFrom cursor (cs ++ rest) found = scanFrom cursor' rest (ts.reverse ++ found) ∧
      ts.map piece = ps

/-- Anything may follow. -/
abbrev anyText : List Char → Prop := fun _ => True

namespace Scans

variable {cs ds : List Char} {ps qs : List Piece} {p : Piece} {follow after : List Char → Prop}

theorem nil : Scans [] [] follow := fun _ _ cursor _ => ⟨[], cursor, rfl, rfl⟩

/-- One text behind the other. -/
theorem append (h : Scans cs ps follow) (hd : Scans ds qs after)
    (hf : ∀ rest, after rest → follow (ds ++ rest)) : Scans (cs ++ ds) (ps ++ qs) after := by
  intro rest hafter cursor found
  obtain ⟨ts, cursor₁, h₁, hts⟩ := h (ds ++ rest) (hf rest hafter) cursor found
  obtain ⟨us, cursor₂, h₂, hus⟩ := hd rest hafter cursor₁ (ts.reverse ++ found)
  refine ⟨ts ++ us, cursor₂, ?_, ?_⟩
  · rw [List.append_assoc, h₁, h₂, List.reverse_append, List.append_assoc]
  · rw [List.map_append, hts, hus]

/-- A text that ends by itself, and another one. -/
theorem next (h : Scans cs ps anyText) (hd : Scans ds qs after) :
    Scans (cs ++ ds) (ps ++ qs) after :=
  h.append hd fun _ _ => trivial

theorem mono (h : Scans cs ps follow) (hf : ∀ rest, after rest → follow rest) :
    Scans cs ps after :=
  fun rest hafter => h rest (hf rest hafter)

/-- A text that is the lexeme of a token. -/
theorem token (h : ∀ rest, follow rest → ∃ l, Lexeme.read? (cs ++ rest) = some (l, rest) ∧
      ∀ place, ofLexeme place l = .ok (some ⟨p.kind, p.text, place⟩)) : Scans cs [p] follow := by
  intro rest hfollow cursor found
  obtain ⟨l, hread, htoken⟩ := h rest hfollow
  have hscan := scanFrom_lexeme hread (htoken cursor.position) found
  exact ⟨[⟨p.kind, p.text, cursor.position⟩], _, hscan, rfl⟩

theorem newline : Scans ['\n'] [] anyText := by
  intro rest _ cursor found
  exact ⟨[], _, scanFrom_lexeme read?_newline rfl found, rfl⟩

theorem separator {c : Char} (h : Text.Blank.isSeparator c = true) : Scans [c] [] anyText := by
  intro rest _ cursor found
  exact ⟨[], _, scanFrom_separator h cursor rest found, rfl⟩

theorem blank : Scans [' '] [] anyText := separator (by decide)

theorem blanks : ∀ n, Scans (List.replicate n ' ') [] anyText
  | 0 => nil
  | n + 1 => blank.next (blanks n)

theorem minus : Scans ['-'] [op "-"] anyText := token fun _ _ => ⟨_, read?_minus, fun _ => rfl⟩

theorem bracket {c : Char} (h : c ∈ ['\x7b', '\x7d', '[', ']', ',']) :
    Scans [c] [punct c.toString] anyText :=
  token fun _ _ => ⟨_, read?_bracket h, fun _ => rfl⟩

/-- A piece in any of the ways in which it may be written, where a blank follows. -/
theorem written (h : p.Written cs) : Scans cs [p] Halts := token fun _ hr => h.read? hr

/-- A piece with a blank behind it. -/
theorem spaced (h : p.Proper) : Scans (p.write ++ [' ']) [p] anyText :=
  (written h.written).append blank fun rest _ => halts_cons (Or.inr (by decide)) rest

/-- A piece that is no sign, where the text is clear behind it. -/
theorem piece (h : p.Proper) (hs : p.isSign = false) : Scans p.write [p] Clear :=
  token fun _ hr => h.written.read?_of_clear hs hr

end Scans

/-- Scanning a whole text. -/
theorem scan_of_scans {source : String} {ps : List Piece} {follow : List Char → Prop}
    (h : Scans source.toList ps follow) (hf : follow []) :
    ∃ ts, scan source = (ts, none) ∧ ts.map piece = ps := by
  obtain ⟨ts, cursor, hts, hps⟩ := h [] hf Cursor.start []
  refine ⟨ts, ?_, hps⟩
  rw [List.append_nil, List.append_nil, scanFrom_nil, List.reverse_reverse] at hts
  exact hts

/-- Scanning undoes writing. -/
theorem scan_render {pieces : List Piece} (h : ∀ p ∈ pieces, p.Proper) :
    ∃ ts, scan (String.ofList (render pieces)) = (ts, none) ∧ ts.map piece = pieces := by
  have hscans : Scans (render pieces) pieces anyText := by
    induction pieces with
    | nil => exact .nil
    | cons p pieces ih =>
      have hp := Scans.spaced (h p List.mem_cons_self)
      exact hp.next (ih fun q hq => h q (List.mem_cons_of_mem _ hq))
  rw [← String.toList_ofList (l := render pieces)] at hscans
  exact scan_of_scans hscans trivial

end Scriptlet.Token
