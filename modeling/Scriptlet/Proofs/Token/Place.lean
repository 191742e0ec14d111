import Mathlib.Data.List.TakeWhile
import Scriptlet.Proofs.Token.Scan

/-!
# Where tokens stand

A source text is tokens with gaps between them, and nothing else. A gap is made of newlines, blanks
and comments that are complete. Every token starts at the place that it names: its line is counted
by the newlines before it, its column by the characters since the last of them. If the scanning
stops early, the place of the problem is that of the first lexeme that cannot be read.

* `Gap` : the texts that no token comes of.
* `Position.behind` : the place behind a text, counted from its beginning.
* `Cursor.past_behind` : the scanner's counts are right behind every lexeme that it passes.
* `Token.Cut` : how a text is cut into tokens, with their places.
* `Token.scan_cut` : so scanning cuts every source text.

The scanner does not look at every character to know its line: it counts a newline and the newlines
in a comment, and takes every other lexeme to stand on one line. The inside of a literal may go on
behind a backslash and a newline, and there the count would be wrong; but such a pair is no escape
sequence, so no token comes of the literal, and the scanning ends.
-/

namespace Scriptlet

/-! ## Places -/

/-- The place behind a text: one more than the newlines in it, and one more than the characters
behind the last newline. -/
def Position.behind (text : List Char) : Position :=
  ⟨1 + text.count '\n', 1 + (text.reverse.takeWhile (· ≠ '\n')).length⟩

/-- The cursor behind a text, counted from its beginning. -/
def Cursor.behind (text : List Char) : Cursor :=
  ⟨text.length, 1 + text.count '\n',
    text.length - (text.reverse.takeWhile (· ≠ '\n')).length⟩

theorem Cursor.position_behind (text : List Char) :
    (Cursor.behind text).position = Position.behind text := by
  have hlast := (List.takeWhile_prefix (· ≠ '\n') (l := text.reverse)).length_le
  rw [List.length_reverse] at hlast
  simp only [Cursor.position, Cursor.behind, Position.behind, Position.mk.injEq, true_and]
  omega

theorem forall_reverse_ne_newline {text : List Char} (h : '\n' ∉ text) :
    ∀ c ∈ text.reverse, decide (c ≠ '\n') = true := by
  intro c hc
  rw [decide_eq_true_iff]
  rintro rfl
  exact h (List.mem_reverse.mp hc)

/-- Behind a text on one line the line is the same and began where it began. -/
theorem Cursor.behind_append {more : List Char} (h : '\n' ∉ more) (text : List Char) :
    Cursor.behind (text ++ more) =
      ⟨text.length + more.length, (Cursor.behind text).line, (Cursor.behind text).lineStart⟩ := by
  have hmore := forall_reverse_ne_newline h
  simp only [Cursor.behind, List.length_append, List.count_append, List.count_eq_zero.mpr h,
    List.reverse_append, List.takeWhile_append_of_pos hmore, List.length_reverse, Nat.add_zero,
    Cursor.mk.injEq, true_and]
  omega

/-- Behind a text with a newline the line is the one that its last newline begins. -/
theorem Cursor.behind_append_newline {last : List Char} (h : '\n' ∉ last)
    (text first : List Char) :
    Cursor.behind (text ++ (first ++ '\n' :: last)) =
      ⟨text.length + (first ++ '\n' :: last).length,
        (Cursor.behind text).line + (first ++ '\n' :: last).count '\n',
        text.length + first.length + 1⟩ := by
  have hlast := forall_reverse_ne_newline h
  have hrow : (text ++ (first ++ '\n' :: last)).reverse.takeWhile (· ≠ '\n') = last.reverse := by
    rw [List.reverse_append, List.reverse_append, List.reverse_cons, List.append_assoc,
      List.append_assoc, List.takeWhile_append_of_pos hlast, List.singleton_append,
      List.takeWhile_cons_of_neg (by decide), List.append_nil]
  simp only [Cursor.behind, hrow, List.length_append, List.count_append, List.length_reverse,
    List.length_cons, Nat.add_assoc, Cursor.mk.injEq, true_and]
  omega

theorem lastNewline?_eq_none_iff {text : List Char} :
    lastNewline? text = none ↔ '\n' ∉ text := by
  fun_induction lastNewline? text with
  | case1 => simp
  | case2 c rest i hrest ih =>
    have hin : '\n' ∈ rest := Decidable.not_not.mp fun hnot => by simpa [hrest] using ih.mpr hnot
    simp [hin]
  | case3 rest hrest ih => simp
  | case4 c rest hrest hc ih => simp [ih.mp hrest, Ne.symm hc]

/-- The last newline of a text parts it. -/
theorem exists_of_lastNewline?_eq_some {text : List Char} {i : Nat}
    (h : lastNewline? text = some i) :
    ∃ first last, text = first ++ '\n' :: last ∧ first.length = i ∧ '\n' ∉ last := by
  fun_induction lastNewline? text generalizing i with
  | case1 => cases h
  | case2 c rest j hrest ih =>
    cases h
    obtain ⟨first, last, rfl, rfl, hlast⟩ := ih hrest
    exact ⟨c :: first, last, rfl, rfl, hlast⟩
  | case3 rest hrest ih =>
    cases h
    exact ⟨[], rest, rfl, rfl, lastNewline?_eq_none_iff.mp hrest⟩
  | case4 c rest hrest hc ih => cases h

/-- A lexeme on one line leaves the line as it is. -/
theorem Cursor.past_of_newline_notMem (c : Cursor) {l : Lexeme} (h : '\n' ∉ l.text) :
    c.past l = ⟨c.offset + l.text.length, c.line, c.lineStart⟩ := by
  cases l with
  | newline => simp [Lexeme.text] at h
  | blockComment body => simp [Cursor.past, lastNewline?_eq_none_iff.mpr h]
  | _ => rfl

/-- A newline begins a line, and so does the last newline in a comment. -/
theorem Cursor.past_of_lastNewline (c : Cursor) {l : Lexeme} {i : Nat}
    (hl : l = .newline ∨ ∃ body, l = .blockComment body) (h : lastNewline? l.text = some i) :
    c.past l = ⟨c.offset + l.text.length, c.line + l.text.count '\n', c.offset + i + 1⟩ := by
  rcases hl with rfl | ⟨body, rfl⟩
  · cases h
    rfl
  · simp [Cursor.past, h]

/-- Behind a lexeme the cursor is the one that is counted from the beginning, if a newline is only
where the scanner counts it. -/
theorem Cursor.past_behind {l : Lexeme}
    (h : '\n' ∉ l.text ∨ l = .newline ∨ ∃ body, l = .blockComment body) (before : List Char) :
    (Cursor.behind before).past l = Cursor.behind (before ++ l.text) := by
  by_cases hline : '\n' ∉ l.text
  · rw [Cursor.past_of_newline_notMem _ hline, Cursor.behind_append hline]
    rfl
  · -- one of the two that may begin a line
    obtain ⟨i, hi⟩ := Option.ne_none_iff_exists'.mp (mt lastNewline?_eq_none_iff.mp hline)
    rw [Cursor.past_of_lastNewline _ (h.resolve_left hline) hi]
    obtain ⟨first, last, htext, rfl, hlast⟩ := exists_of_lastNewline?_eq_some hi
    rw [htext, Cursor.behind_append_newline hlast]
    rfl

/-! ## Gaps -/

open Text

/-- The texts that no token comes of: newlines, blanks, and comments that are complete. A comment
up to the end of its line is complete with the newline, one between marks with the first end
mark. -/
inductive Gap : List Char → Prop where
  | nil : Gap []
  | newline {cs : List Char} (rest : Gap cs) : Gap ('\n' :: cs)
  | blank {c : Char} {cs : List Char} (h : Blank.isSeparator c = true) (rest : Gap cs) :
      Gap (c :: cs)
  | line {text cs : List Char} (h : '\n' ∉ text) (rest : Gap cs) :
      Gap ('/' :: '/' :: (text ++ '\n' :: cs))
  | block {inside cs : List Char} (h : ¬ ['*', '/'] <:+: inside) (rest : Gap cs) :
      Gap ('/' :: '*' :: (inside ++ '*' :: '/' :: cs))

namespace Gap

theorem append {cs ds : List Char} (h : Gap cs) (hd : Gap ds) : Gap (cs ++ ds) := by
  induction h with
  | nil => exact hd
  | newline _ ih => exact .newline ih
  | blank hc _ ih => exact .blank hc ih
  | line hn _ ih =>
    rw [List.cons_append, List.cons_append, List.append_assoc, List.cons_append]
    exact .line hn ih
  | block hi _ ih =>
    simp only [List.cons_append, List.append_assoc]
    exact .block hi ih

/-- A row of blanks. -/
theorem blanks {row : List Char} (h : ∀ c ∈ row, Blank.isSeparator c = true) : Gap row := by
  induction row with
  | nil => exact .nil
  | cons c row ih =>
    exact .blank (h c List.mem_cons_self) (ih fun d hd => h d (List.mem_cons_of_mem c hd))

end Gap

/-! ## Lexemes -/

namespace Lexeme

open Text.DecimalDigit Number.Integer

/-- A comment that ends does so with the first end mark. -/
theorem closeComment?_eq_some {cs inside after : List Char}
    (h : closeComment? cs = some (inside, after)) :
    ∃ text, inside = text ++ ['*', '/'] ∧ ¬ ['*', '/'] <:+: text := by
  fun_induction closeComment? cs generalizing inside after with
  | case1 => cases h
  | case2 rest =>
    cases h
    exact ⟨[], rfl, by simp⟩
  | case3 c rest hopen ih =>
    obtain ⟨⟨inner, behind⟩, hinner, he⟩ := Option.map_eq_some_iff.mp h
    cases he
    obtain ⟨text, rfl, hfree⟩ := ih hinner
    refine ⟨c :: text, rfl, ?_⟩
    intro hin
    rcases List.infix_cons_iff.mp hin with hstart | hin
    · -- the end mark would have been seen at once
      obtain ⟨rfl, htail⟩ := List.cons_prefix_cons.mp hstart
      obtain ⟨more, rfl⟩ := htail
      have hrest := closeComment?_append hinner
      exact hopen (more ++ ['*', '/'] ++ after) rfl (by rw [← hrest]; simp)
    · exact hfree hin

/-- A comment that does not end has no end mark. -/
theorem closeComment?_eq_none {cs : List Char} (h : closeComment? cs = none) :
    ¬ ['*', '/'] <:+: cs := by
  fun_induction closeComment? cs with
  | case1 => simp
  | case2 rest => cases h
  | case3 c rest hopen ih =>
    intro hin
    rcases List.infix_cons_iff.mp hin with hstart | hin
    · obtain ⟨rfl, more, rfl⟩ := List.cons_prefix_cons.mp hstart
      exact hopen more rfl rfl
    · exact ih (Option.map_eq_none_iff.mp h) hin

/-- A literal of which a token comes stands on one line. -/
theorem Quotable.newline_notMem {mark : Char} {content : List Char} (h : Quotable mark content) :
    ∀ {cs : List Char}, Escape.decode content = .ok cs → '\n' ∉ content := by
  induction h with
  | nil => simp
  | @pair c content _ ih =>
    intro cs hd
    rw [Escape.decode] at hd
    cases hm : Escape.meaning? c with
    | none =>
      rw [hm] at hd
      cases hd
    | some m =>
      rw [hm] at hd
      -- a backslash and a newline mean nothing
      have hc : c ≠ '\n' := by
        rintro rfl
        cases hm
      cases hrest : Escape.decode content with
      | error next =>
        rw [hrest] at hd
        cases hd
      | ok tail => simpa [hc.symm] using ih hrest
  | @plain c content slash _ newline _ ih =>
    intro cs hd
    rw [Escape.decode_cons_of_ne slash] at hd
    cases hrest : Escape.decode content with
    | error next =>
      rw [hrest] at hd
      cases hd
    | ok tail => simpa [newline.symm] using ih hrest

theorem stringContent?_quotable {cs inside after : List Char}
    (h : stringContent? cs = some (inside, after)) : Quotable '"' inside := by
  fun_induction stringContent? cs generalizing inside after with
  | case1 => cases h
  | case2 rest =>
    cases h
    exact .nil
  | case3 => cases h
  | case4 c rest ih =>
    obtain ⟨⟨inner, behind⟩, hinner, he⟩ := Option.map_eq_some_iff.mp h
    cases he
    exact .pair (ih hinner)
  | case5 => cases h
  | case6 c rest hmark hend hslash hnewline ih =>
    obtain ⟨⟨inner, behind⟩, hinner, he⟩ := Option.map_eq_some_iff.mp h
    cases he
    have hback : c ≠ '\\' := by
      rintro rfl
      cases rest with
      | nil => exact hend rfl rfl
      | cons d rest => exact hslash d rest rfl rfl
    exact .plain hback hmark hnewline (ih hinner)

/-- The inside of a char: a backslash and any character, or one that needs none. -/
theorem quotedItem?_cases {mark : Char} {cs inside after : List Char}
    (h : quotedItem? mark cs = some (inside, after)) :
    (∃ c, inside = ['\\', c]) ∨ ∃ c, inside = [c] ∧ c ≠ '\\' ∧ c ≠ mark ∧ c ≠ '\n' := by
  unfold quotedItem? at h
  split at h
  · next c rest =>
    cases h
    exact Or.inl ⟨c, rfl⟩
  · cases h
  · next c rest hslash hend =>
    split at h
    · cases h
    · next hplain =>
      cases h
      have hback : c ≠ '\\' := by
        rintro rfl
        cases after with
        | nil => exact hend rfl rfl
        | cons d rest => exact hslash d rest rfl rfl
      exact Or.inr ⟨c, rfl, hback, fun he => hplain (Or.inl he), fun he => hplain (Or.inr he)⟩
  · cases h

/-- A mark and digits that make a hexadecimal number behind a zero. -/
structure IsHex (mark : Char) (digits : List Char) : Prop where
  mark : mark = 'x' ∨ mark = 'X'
  some : digits ≠ []
  digits : ∀ c ∈ digits, isHexDigit c = true

theorem IsHex.newline_notMem {mark : Char} {digits : List Char} (h : IsHex mark digits) :
    '\n' ∉ (hex mark digits).text := by
  have hmark : '\n' ≠ mark := by
    rintro rfl
    simpa using h.mark
  have hdigits : '\n' ∉ digits := by
    intro hin
    have hnewline := h.digits _ hin
    revert hnewline
    decide
  simp [text, hmark, hdigits]

/-- What is known of a lexeme that was read and of the text behind it. -/
def Shaped (rest : List Char) : Lexeme → Prop
  | newline => True
  | blanks row => ∀ c ∈ row, Blank.isSeparator c = true
  | lineComment line => '\n' ∉ line ∧ ∀ c ∈ rest.head?, c = '\n'
  | blockComment body => ∃ inside, body = inside ++ ['*', '/'] ∧ ¬ ['*', '/'] <:+: inside
  | openComment => ¬ ['*', '/'] <:+: rest
  | hex mark digits => IsHex mark digits
  | string content => Quotable '"' content
  | char content => (∃ c, content = ['\\', c]) ∨
      ∃ c, content = [c] ∧ c ≠ '\\' ∧ c ≠ '\'' ∧ c ≠ '\n'
  | l => '\n' ∉ l.text

theorem newline?_shaped {cs rest : List Char} {l : Lexeme} (h : newline? cs = some (l, rest)) :
    l.Shaped rest := by
  unfold newline? at h
  split at h
  · cases h
    exact trivial
  · cases h

theorem blanks?_shaped {cs rest : List Char} {l : Lexeme} (h : blanks? cs = some (l, rest)) :
    l.Shaped rest := by
  unfold blanks? at h
  dsimp only at h
  split at h
  · cases h
  · cases h
    exact fun c hc => List.mem_takeWhile_imp hc

theorem comment?_shaped {cs rest : List Char} {l : Lexeme} (h : comment? cs = some (l, rest)) :
    l.Shaped rest := by
  unfold comment? at h
  split at h
  · next text =>
    cases h
    refine ⟨?_, ?_⟩
    · intro hin
      simpa using List.mem_takeWhile_imp hin
    · intro c hc
      have hstop := List.head?_dropWhile_not (fun c => c != '\n') text
      rw [Option.mem_def.mp hc] at hstop
      simpa using hstop
  · next text =>
    cases hclose : closeComment? text with
    | some result =>
      obtain ⟨inside, after⟩ := result
      rw [hclose] at h
      cases h
      exact closeComment?_eq_some hclose
    | none =>
      rw [hclose] at h
      cases h
      exact closeComment?_eq_none hclose
  · cases h

/-- A row of characters that are no newlines stands on one line. -/
theorem newline_notMem_takeWhile {p : Char → Bool} (hp : p '\n' = false) (cs : List Char) :
    '\n' ∉ cs.takeWhile p := by
  intro hin
  have hnewline := List.mem_takeWhile_imp hin
  rw [hp] at hnewline
  cases hnewline

theorem newline_notMem_exponent (cs : List Char) : '\n' ∉ (exponent cs).1 := by
  unfold exponent
  split
  · next mark rest =>
    dsimp only
    split
    · next hmark =>
      have hsign : '\n' ∉ (sign rest).1 := by
        unfold sign
        split <;> simp
      have hdigits := newline_notMem_takeWhile (p := isDigit) (by decide) (sign rest).2
      have hne : '\n' ≠ mark := by
        rintro rfl
        simp at hmark
      simp [hsign, hdigits, hne]
    · simp
  · simp

theorem number?_shaped {cs rest : List Char} {l : Lexeme} (h : number? cs = some (l, rest)) :
    l.Shaped rest := by
  have digits : ∀ cs : List Char, '\n' ∉ cs.takeWhile isDigit :=
    newline_notMem_takeWhile (by decide)
  unfold number? at h
  dsimp only at h
  split at h
  · cases h
  split at h
  · next after _ =>
    split at h
    · cases h
      exact digits cs
    · cases h
      simp [Shaped, text, digits, newline_notMem_exponent]
  · next mark after _ _ =>
    split at h
    · next hx =>
      cases h
      exact ⟨hx.2.1, by simpa using hx.2.2, fun c hc => List.mem_takeWhile_imp hc⟩
    · cases h
      exact digits cs
  · cases h
    exact digits cs

theorem string?_shaped {cs rest : List Char} {l : Lexeme} (h : string? cs = some (l, rest)) :
    l.Shaped rest := by
  unfold string? at h
  split at h
  · obtain ⟨⟨inside, after⟩, hinside, he⟩ := Option.map_eq_some_iff.mp h
    cases he
    exact stringContent?_quotable hinside
  · cases h

theorem char?_shaped {cs rest : List Char} {l : Lexeme} (h : char? cs = some (l, rest)) :
    l.Shaped rest := by
  unfold char? at h
  split at h
  · split at h
    · next hitem =>
      cases h
      exact quotedItem?_cases hitem
    · cases h
  · cases h

theorem word?_shaped {cs rest : List Char} {l : Lexeme} (h : word? cs = some (l, rest)) :
    l.Shaped rest := by
  unfold word? at h
  split at h
  · next c tail =>
    split at h
    · next hc =>
      cases h
      have hne : '\n' ≠ c := by
        rintro rfl
        cases hc
      have hparts := newline_notMem_takeWhile (p := isNamePart) (by decide) tail
      simp [Shaped, text, hne, hparts]
    · cases h
  · cases h

theorem op?_shaped {cs rest : List Char} {l : Lexeme} (h : op? cs = some (l, rest)) :
    l.Shaped rest := by
  obtain ⟨sign, hsign, he⟩ := Option.map_eq_some_iff.mp h
  cases he
  have all : ∀ sign ∈ operators, '\n' ∉ sign := by decide
  exact all sign (List.mem_of_find?_eq_some hsign)

theorem punct?_shaped {cs rest : List Char} {l : Lexeme} (h : punct? cs = some (l, rest)) :
    l.Shaped rest := by
  unfold punct? at h
  split at h
  · next c tail =>
    split at h
    · next hc =>
      cases h
      have hne : '\n' ≠ c := by
        rintro rfl
        simp [punctuation] at hc
      simpa [Shaped, text] using hne
    · cases h
  · cases h

theorem read?_shaped {cs rest : List Char} {l : Lexeme} (h : read? cs = some (l, rest)) :
    l.Shaped rest := by
  obtain ⟨recognise, known, h⟩ := List.exists_of_findSome?_eq_some h
  simp only [recognisers, List.mem_cons, List.not_mem_nil, or_false] at known
  rcases known with rfl | rfl | rfl | rfl | rfl | rfl | rfl | rfl | rfl
  · exact newline?_shaped h
  · exact blanks?_shaped h
  · exact comment?_shaped h
  · exact number?_shaped h
  · exact string?_shaped h
  · exact char?_shaped h
  · exact word?_shaped h
  · exact op?_shaped h
  · exact punct?_shaped h

end Lexeme

/-! ## Cutting a text -/

namespace Token

open Number.Integer

open Lexeme (IsHex Quotable)

/-- How a token is spelled: as its own text, in hexadecimal, or as a literal between two marks. -/
inductive Spelled : Kind → String → List Char → Prop where
  | plain {kind : Kind} {own : List Char} (unquoted : kind ≠ .string ∧ kind ≠ .char) :
      Spelled kind (String.ofList own) own
  | hex {mark : Char} {digits : List Char} {text : String} (shape : IsHex mark digits)
      (value : text? (hexNumber digits) = some text) :
      Spelled .integer text ('0' :: mark :: digits)
  | string {content cs : List Char} (inside : Quotable '"' content)
      (meaning : Escape.decode content = .ok cs) :
      Spelled .string (String.ofList cs) ('"' :: (content ++ ['"']))
  | char {content : List Char} {c : Char} (inside : Quotable '\'' content)
      (meaning : Escape.decode content = .ok [c]) :
      Spelled .char (String.ofList [c]) ('\'' :: (content ++ ['\'']))

/-- A text begins with a lexeme that cannot be read. -/
inductive Unreadable : Problem → List Char → Prop where
  | character {c : Char} {rest : List Char} (none : Lexeme.read? (c :: rest) = none) :
      Unreadable (.unexpectedCharacter c) (c :: rest)
  | comment {rest : List Char} (endless : ¬ ['*', '/'] <:+: rest) :
      Unreadable .unterminatedComment ('/' :: '*' :: rest)
  | string {content rest : List Char} {next : Option Char} (inside : Quotable '"' content)
      (unknown : Escape.decode content = .error next) :
      Unreadable (.unknownEscape next) ('"' :: (content ++ '"' :: rest))
  | char {c : Char} {rest : List Char} (unknown : Escape.meaning? c = none) :
      Unreadable (.unknownEscape (some c)) ('\'' :: '\\' :: c :: '\'' :: rest)

/-- Behind the text `before`, a source text goes on with tokens that have gaps between them, up to
its end or to a lexeme that cannot be read. Every token stands on one line and starts at the place
that it names, and so does the lexeme that cannot be read. -/
inductive Cut : (before text : List Char) → List Token → Option Fault → Prop where
  | ended {before gap : List Char} (between : Gap gap) : Cut before gap [] none
  | endedInComment {before gap line : List Char} (between : Gap gap) (last : '\n' ∉ line) :
      Cut before (gap ++ '/' :: '/' :: line) [] none
  | token {before gap own rest : List Char} {t : Token} {tokens : List Token}
      {fault : Option Fault} (between : Gap gap) (spelled : Spelled t.kind t.text own)
      (some : own ≠ []) (single : '\n' ∉ own) (place : t.position = .behind (before ++ gap))
      (next : Cut (before ++ gap ++ own) rest tokens fault) :
      Cut before (gap ++ (own ++ rest)) (t :: tokens) fault
  | unreadable {before gap rest : List Char} {problem : Problem} (between : Gap gap)
      (bad : Unreadable problem rest) :
      Cut before (gap ++ rest) [] (some (.misread problem (.behind (before ++ gap))))
  | tooLong {before gap digits rest : List Char} {mark : Char} (between : Gap gap)
      (shape : IsHex mark digits) (value : text? (hexNumber digits) = none) :
      Cut before (gap ++ '0' :: mark :: (digits ++ rest)) [] (some .digitsToText)

/-- A gap before a text goes with the one that the text begins with. -/
theorem Cut.gap {before gap rest : List Char} {tokens : List Token} {fault : Option Fault}
    (h : Gap gap) (hc : Cut (before ++ gap) rest tokens fault) :
    Cut before (gap ++ rest) tokens fault := by
  cases hc with
  | ended between => exact .ended (h.append between)
  | endedInComment between last =>
    rw [← List.append_assoc]
    exact .endedInComment (h.append between) last
  | token between spelled some single place next =>
    rw [← List.append_assoc]
    rw [List.append_assoc before] at place next
    exact .token (h.append between) spelled some single place next
  | unreadable between bad =>
    rw [← List.append_assoc, List.append_assoc before]
    exact .unreadable (h.append between) bad
  | tooLong between shape value =>
    rw [← List.append_assoc]
    exact .tooLong (h.append between) shape value

section

variable {before text : List Char} {tokens : List Token} {fault : Option Fault}

/-- Every token is spelled out in the text, at the place that it names. -/
theorem Cut.spelled_of_mem (h : Cut before text tokens fault) {t : Token} (ht : t ∈ tokens) :
    ∃ earlier own later, text = earlier ++ (own ++ later) ∧ own ≠ [] ∧ Spelled t.kind t.text own ∧
      t.position = .behind (before ++ earlier) := by
  induction h with
  | ended | endedInComment | unreadable | tooLong => cases ht
  | @token before gap own rest t' tokens fault between spelled some single place next ih =>
    rcases List.mem_cons.mp ht with rfl | ht
    · exact ⟨gap, own, rest, rfl, some, spelled, place⟩
    · obtain ⟨earlier, own', later, rfl, hown, hspelled, hplace⟩ := ih ht
      refine ⟨gap ++ (own ++ earlier), own', later, by simp, hown, hspelled, ?_⟩
      simpa using hplace

/-- A text that cannot be read to its end holds something that cannot be read, at the place of the
problem. -/
theorem Cut.unreadable_of_fault {problem : Problem} {place : Position}
    (h : Cut before text tokens fault) (hfault : fault = some (.misread problem place)) :
    ∃ earlier rest, text = earlier ++ rest ∧ Unreadable problem rest ∧
      place = .behind (before ++ earlier) := by
  induction h with
  | ended | endedInComment | tooLong => cases hfault
  | @unreadable before gap rest problem' between bad =>
    cases hfault
    exact ⟨gap, rest, rfl, bad, rfl⟩
  | @token before gap own rest t' tokens fault between spelled some single place next ih =>
    obtain ⟨earlier, later, rfl, hbad, hplace⟩ := ih hfault
    refine ⟨gap ++ (own ++ earlier), later, by simp, hbad, ?_⟩
    simpa using hplace

end

/-- The token of a lexeme that was read is spelled as the lexeme, on one line. -/
theorem spelled_of_ofLexeme {p : Position} {l : Lexeme} {rest : List Char} {t : Token}
    (hl : l.Shaped rest) (h : ofLexeme p l = .ok (some t)) :
    Spelled t.kind t.text l.text ∧ '\n' ∉ l.text ∧ t.position = p := by
  cases l with
  | newline | blanks row | lineComment line | blockComment body | openComment => cases h
  | integer digits | float whole fraction exponent | op text | punct c =>
    cases h
    exact ⟨.plain (by simp), hl, rfl⟩
  | hex mark digits =>
    rw [ofLexeme] at h
    split at h
    · next value =>
      cases h
      exact ⟨.hex hl value, hl.newline_notMem, rfl⟩
    · cases h
  | word text =>
    cases h
    refine ⟨.plain ?_, hl, rfl⟩
    dsimp only
    split <;> decide
  | string content =>
    rw [ofLexeme, unescape] at h
    cases hd : Escape.decode content with
    | error next =>
      rw [hd] at h
      cases h
    | ok cs =>
      rw [hd] at h
      cases h
      refine ⟨.string hl hd, ?_, rfl⟩
      simpa [Lexeme.text] using hl.newline_notMem hd
  | char content =>
    rw [ofLexeme, unescape] at h
    rcases hl with ⟨c, rfl⟩ | ⟨c, rfl, slash, closing, newline⟩
    · cases hm : Escape.meaning? c with
      | none =>
        rw [Escape.decode, hm] at h
        cases h
      | some m =>
        have hd : Escape.decode ['\\', c] = .ok [m] := by rw [Escape.decode, hm]; rfl
        have hinside : Quotable '\'' ['\\', c] := .pair .nil
        rw [hd] at h
        cases h
        refine ⟨.char hinside hd, ?_, rfl⟩
        simpa [Lexeme.text] using hinside.newline_notMem hd
    · have hd : Escape.decode [c] = .ok [c] := by rw [Escape.decode_cons_of_ne slash]; rfl
      rw [hd] at h
      cases h
      refine ⟨.char (.plain slash closing newline .nil) hd, ?_, rfl⟩
      simpa [Lexeme.text] using newline.symm

/-- What is wrong with a lexeme of which no token comes. -/
theorem unreadable_of_ofLexeme {p : Position} {l : Lexeme} {rest : List Char} {f : Fault}
    (hl : l.Shaped rest) (h : ofLexeme p l = .error f) :
    (∃ problem, f = .misread problem p ∧ Unreadable problem (l.text ++ rest)) ∨
      ∃ mark digits, f = .digitsToText ∧ l = .hex mark digits ∧
        text? (hexNumber digits) = none := by
  cases l with
  | openComment =>
    cases h
    exact Or.inl ⟨_, rfl, .comment hl⟩
  | hex mark digits =>
    rw [ofLexeme] at h
    split at h
    · cases h
    · next value =>
      cases h
      exact Or.inr ⟨mark, digits, rfl, rfl, value⟩
  | string content =>
    rw [ofLexeme, unescape] at h
    cases hd : Escape.decode content with
    | ok cs =>
      rw [hd] at h
      cases h
    | error next =>
      rw [hd] at h
      cases h
      refine Or.inl ⟨_, rfl, ?_⟩
      rw [Lexeme.text, List.cons_append, List.append_assoc]
      exact .string hl hd
  | char content =>
    rw [ofLexeme, unescape] at h
    rcases hl with ⟨c, rfl⟩ | ⟨c, rfl, slash, closing, newline⟩
    · cases hm : Escape.meaning? c with
      | some m =>
        rw [Escape.decode, hm] at h
        cases h
      | none =>
        rw [Escape.decode, hm] at h
        cases h
        exact Or.inl ⟨_, rfl, .char hm⟩
    · rw [Escape.decode_cons_of_ne slash] at h
      cases h
  | _ => cases h

/-- The lexemes of which neither a token nor a fault comes. -/
theorem cases_of_ofLexeme_none {p : Position} {l : Lexeme} (h : ofLexeme p l = .ok none) :
    l = .newline ∨ (∃ row, l = .blanks row) ∨ (∃ line, l = .lineComment line) ∨
      ∃ body, l = .blockComment body := by
  cases l with
  | newline | blanks row | lineComment line | blockComment body => simp
  | hex mark digits =>
    rw [ofLexeme] at h
    split at h <;> cases h
  | string content | char content =>
    rw [ofLexeme, unescape] at h
    cases hd : Escape.decode content with
    | ok cs | error next =>
      rw [hd] at h
      cases h
  | _ => cases h

/-- A lexeme of which neither a token nor a fault comes is a gap. A comment up to the end of its
line is one together with the newline, which is a lexeme of its own. -/
theorem gap_of_ofLexeme {p : Position} {l : Lexeme} {rest : List Char} (hl : l.Shaped rest)
    (h : ofLexeme p l = .ok none) :
    Gap l.text ∨ ∃ line, l = .lineComment line ∧ '\n' ∉ line ∧ ∀ c ∈ rest.head?, c = '\n' := by
  rcases cases_of_ofLexeme_none h with rfl | ⟨row, rfl⟩ | ⟨line, rfl⟩ | ⟨body, rfl⟩
  · exact Or.inl (.newline .nil)
  · exact Or.inl (.blanks hl)
  · exact Or.inr ⟨line, rfl, hl⟩
  · obtain ⟨inside, rfl, hfree⟩ := hl
    exact Or.inl (.block hfree .nil)

/-- Where the scanner goes on, a newline is only where it counts one: the literals that go over
several lines end the scanning. -/
theorem newline_of_ofLexeme {p : Position} {l : Lexeme} {rest : List Char} {o : Option Token}
    (hl : l.Shaped rest) (h : ofLexeme p l = .ok o) :
    '\n' ∉ l.text ∨ l = .newline ∨ ∃ body, l = .blockComment body := by
  cases o with
  | some t => exact Or.inl (spelled_of_ofLexeme hl h).2.1
  | none =>
    rcases cases_of_ofLexeme_none h with rfl | ⟨row, rfl⟩ | ⟨line, rfl⟩ | ⟨body, rfl⟩
    · exact Or.inr (Or.inl rfl)
    · refine Or.inl fun hin => ?_
      cases hl _ hin
    · exact Or.inl (by simpa [Lexeme.text] using hl.1)
    · exact Or.inr (Or.inr ⟨body, rfl⟩)

theorem scanFrom_cut (before cs : List Char) :
    Cut before cs (scanFrom (.behind before) cs []).1 (scanFrom (.behind before) cs []).2 := by
  cases hr : Lexeme.read? cs with
  | none =>
    cases cs with
    | nil =>
      rw [scanFrom_nil]
      exact .ended .nil
    | cons c rest =>
      have hcut : Cut before _ _ _ := .unreadable .nil (.character hr)
      rw [List.append_nil] at hcut
      rw [scanFrom_unexpected hr, Cursor.position_behind]
      exact hcut
  | some result =>
    obtain ⟨l, rest⟩ := result
    have hshape := Lexeme.read?_shaped hr
    obtain ⟨htext, hne⟩ := Lexeme.read?_append hr
    cases ho : ofLexeme (Cursor.behind before).position l with
    | error f =>
      rw [scanFrom_refused hr ho]
      rw [Cursor.position_behind] at ho
      rcases unreadable_of_ofLexeme hshape ho with
        ⟨problem, rfl, hbad⟩ | ⟨mark, digits, rfl, rfl, hv⟩
      · have hcut : Cut before _ _ _ := .unreadable .nil hbad
        rw [List.append_nil, List.nil_append, htext] at hcut
        exact hcut
      · have hcut : Cut before ([] ++ '0' :: mark :: (digits ++ rest)) _ _ :=
          .tooLong .nil hshape hv
        rw [← htext]
        exact hcut
    | ok o =>
      have ih := scanFrom_cut (before ++ l.text) rest
      rw [scanFrom_lexeme hr ho, Cursor.past_behind (newline_of_ofLexeme hshape ho)]
      cases o with
      | some t =>
        obtain ⟨hspelled, hsingle, hplace⟩ := spelled_of_ofLexeme hshape ho
        have hcut : Cut before _ _ _ := .token .nil hspelled hne hsingle
          (by rw [List.append_nil, hplace, Cursor.position_behind]) (by rwa [List.append_nil])
        rw [List.nil_append, htext] at hcut
        rw [scanFrom_found]
        exact hcut
      | none =>
        rw [← htext]
        rcases gap_of_ofLexeme hshape ho with hgap | ⟨line, rfl, hline, hnext⟩
        · exact Cut.gap hgap ih
        · cases rest with
          | nil =>
            rw [scanFrom_nil, List.append_nil]
            exact .endedInComment .nil hline
          | cons c more =>
            -- the newline that ends the comment is a gap of its own to the scanner
            obtain rfl : c = '\n' := hnext c rfl
            have ih := scanFrom_cut (before ++ '/' :: '/' :: (line ++ ['\n'])) more
            have hcut := Cut.gap (.line hline .nil) ih
            rw [scanFrom_lexeme Lexeme.read?_newline rfl,
              Cursor.past_behind (Or.inr (Or.inl rfl))]
            simpa [Lexeme.text] using hcut
termination_by cs.length
decreasing_by
  · exact Lexeme.length_rest_lt hr
  · exact Nat.lt_trans (Nat.lt_succ_self _) (Lexeme.length_rest_lt hr)

/-- Every source text is cut into tokens and gaps, as far as it can be read: each token starts at
the place that it names, what stands between tokens is newlines, blanks and complete comments, and
the place of a problem is that of the first lexeme that cannot be read. -/
theorem scan_cut (source : String) : Cut [] source.toList (scan source).1 (scan source).2 :=
  scanFrom_cut [] source.toList

end Token

end Scriptlet
