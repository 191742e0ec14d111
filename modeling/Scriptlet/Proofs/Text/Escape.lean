import Mathlib.Data.List.Basic
import Scriptlet.Store.Rendering
import Scriptlet.Token.Scan

/-!
# What escape sequences can be read from

A text with escape sequences is a row of symbols: a symbol is a character other than the backslash,
which means itself, or a backslash and the key of one of seven sequences. Reading goes from left to
right, so whether a backslash begins a sequence or ends one depends on all that stands before it. It
accepts exactly the rows of symbols (`decode_eq_ok_iff`), and so undoes every way to write a text in
symbols.

The rendering of strings is one such way. It is done by two replacements, of which the second must
not touch what the first has put in (`protect_eq_replaced`).
-/

namespace Scriptlet.Text.Escape

/-! ## Symbols -/

/-- The escape sequences: the character behind the backslash, and the one that is meant. -/
def sequences : List (Char × Char) :=
  [('n', '\n'), ('t', '\t'), ('r', '\r'), ('0', '\x00'), ('\\', '\\'), ('"', '"'), ('\'', '\'')]

theorem meaning?_eq_some_iff {key c : Char} : meaning? key = some c ↔ (key, c) ∈ sequences := by
  unfold meaning?
  split <;> simp_all [sequences, eq_comm]

/-- A character that stands for itself, or one of the escape sequences. -/
inductive Symbol where
  | raw (c : Char) (slash : c ≠ '\\')
  | sequence (key c : Char) (known : (key, c) ∈ sequences)

namespace Symbol

/-- How a symbol is written. -/
def written : Symbol → List Char
  | raw c _ => [c]
  | sequence key _ _ => ['\\', key]

/-- The character that a symbol means. -/
def meaning : Symbol → Char
  | raw c _ => c
  | sequence _ c _ => c

end Symbol

/-! ## Reading -/

theorem decode_cons_of_known {key c : Char} (h : (key, c) ∈ sequences) (rest : List Char) :
    decode ('\\' :: key :: rest) = (decode rest).map (c :: ·) := by
  rw [decode, meaning?_eq_some_iff.mpr h]

/-- Symbols are read one by one, as what they mean. -/
theorem decode_written (symbols : List Symbol) :
    decode (symbols.flatMap Symbol.written) = .ok (symbols.map Symbol.meaning) := by
  induction symbols with
  | nil => rfl
  | cons symbol rest ih =>
    rw [List.flatMap_cons]
    cases symbol with
    | raw c slash =>
      rw [Symbol.written, List.singleton_append, decode_cons_of_ne slash, ih]
      rfl
    | sequence key c known =>
      rw [Symbol.written, List.cons_append, List.singleton_append, decode_cons_of_known known, ih]
      rfl

theorem exists_of_map_eq_ok {ε α β : Type} {answer : Except ε α} {f : α → β} {b : β}
    (h : answer.map f = .ok b) : ∃ a, answer = .ok a ∧ f a = b := by
  cases answer with
  | error e => cases h
  | ok a => exact ⟨a, rfl, Except.ok.inj h⟩

/-- Nothing but symbols is read. -/
theorem exists_symbols_of_decode {text out : List Char} (h : decode text = .ok out) :
    ∃ symbols : List Symbol,
      text = symbols.flatMap Symbol.written ∧ out = symbols.map Symbol.meaning := by
  fun_induction decode text generalizing out with
  | case1 =>
    cases h
    exact ⟨[], rfl, rfl⟩
  | case2 => cases h
  | case3 key rest unknown => cases h
  | case4 key rest c known ih =>
    obtain ⟨cs, hrest, rfl⟩ := exists_of_map_eq_ok h
    obtain ⟨symbols, rfl, rfl⟩ := ih hrest
    exact ⟨.sequence key c (meaning?_eq_some_iff.mp known) :: symbols, rfl, rfl⟩
  | case5 c rest last pair ih =>
    -- a backslash in front would be the last character, or begin a pair
    have slash : c ≠ '\\' := by
      intro hc
      cases rest with
      | nil => exact last hc rfl
      | cons key rest => exact pair key rest hc rfl
    obtain ⟨cs, hrest, rfl⟩ := exists_of_map_eq_ok h
    obtain ⟨symbols, rfl, rfl⟩ := ih hrest
    exact ⟨.raw c slash :: symbols, rfl, rfl⟩

theorem decode_eq_ok_iff {text out : List Char} :
    decode text = .ok out ↔ ∃ symbols : List Symbol,
      text = symbols.flatMap Symbol.written ∧ out = symbols.map Symbol.meaning := by
  constructor
  · exact exists_symbols_of_decode
  · rintro ⟨symbols, rfl, rfl⟩
    exact decode_written symbols

/-! ## Writing -/

/-- A text with every occurrence of a character replaced. -/
def replaced (c : Char) (replacement text : List Char) : List Char :=
  text.flatMap fun d => if d = c then replacement else [d]

/-- Backslashes are doubled first, so that those in front of the quotes stay as they are. -/
theorem protect_eq_replaced (cs : List Char) :
    protect cs = replaced '"' ['\\', '"'] (replaced '\\' ['\\', '\\'] cs) := by
  rw [protect, replaced, replaced, List.flatMap_assoc]
  refine List.flatMap_congr fun c _ => ?_
  by_cases hslash : c = '\\'
  · subst hslash
    rfl
  · rw [if_neg hslash]
    by_cases hquote : c = '"' <;> simp [hslash, hquote]

end Scriptlet.Text.Escape

namespace Scriptlet.Token

open Text.Escape

theorem unescape_eq_ok_iff {text : List Char} {p : Position} {out : String} :
    unescape text p = .ok out ↔ decode text = .ok out.toList := by
  unfold unescape
  cases decode text with
  | error next => simp
  | ok cs =>
    constructor
    · intro h
      rw [← Except.ok.inj h, String.toList_ofList]
    · intro h
      rw [← String.ofList_toList (s := out), ← Except.ok.inj h]

/-- The inside of a quoted literal can be read exactly if it is a row of symbols, and is then read
as what the symbols mean. The only other end is the fault of an unknown sequence. So a string comes
back from every row of symbols that mean its characters, and it comes back from its rendering, which
doubles its backslashes, then escapes its double quotes, and puts double quotes around. -/
theorem unescape_reads_symbols (p : Position) :
    (∀ text out, unescape text p = .ok out ↔ ∃ symbols : List Symbol,
      text = symbols.flatMap Symbol.written ∧ out = String.ofList (symbols.map Symbol.meaning)) ∧
    (∀ text, (∃ out, unescape text p = .ok out) ∨
      ∃ next, unescape text p = .error (.misread (.unknownEscape next) p)) ∧
    ∀ s : String,
      (∀ symbols : List Symbol, symbols.map Symbol.meaning = s.toList →
        unescape (symbols.flatMap Symbol.written) p = .ok s) ∧
      ∃ inside, inside = replaced '"' ['\\', '"'] (replaced '\\' ['\\', '\\'] s.toList) ∧
        (Primitive.string s).nestedText = .ok ("\"" ++ String.ofList inside ++ "\"") ∧
        unescape inside p = .ok s := by
  refine ⟨?_, ?_, ?_⟩
  · intro text out
    rw [unescape_eq_ok_iff, decode_eq_ok_iff]
    refine exists_congr fun symbols => and_congr_right' ?_
    rw [← String.toList_inj, String.toList_ofList]
  · intro text
    unfold unescape
    cases decode text with
    | ok cs => exact .inl ⟨_, rfl⟩
    | error next => exact .inr ⟨next, rfl⟩
  · intro s
    refine ⟨?_, protect s.toList, protect_eq_replaced s.toList, rfl, ?_⟩
    · intro symbols hmeaning
      rw [unescape_eq_ok_iff, decode_written, hmeaning]
    · rw [unescape_eq_ok_iff, decode_protect]

/-- A backslash, a double quote and a newline, of which only the double quote is written as itself.
Behind an escaped double quote, a backslash that ends the text is no symbol. -/
theorem unescape_of_mixed_symbols :
    ([.sequence '\\' '\\' (by decide), .raw '"' (by decide), .sequence 'n' '\n' (by decide)] :
      List Symbol).map Symbol.meaning = "\\\"\n".toList ∧
    unescape ['\\', '\\', '"', '\\', 'n'] Position.start = .ok "\\\"\n" ∧
    unescape ['\\', '"', '\\'] Position.start =
      .error (.misread (.unknownEscape none) Position.start) := by
  refine ⟨rfl, ?_, rfl⟩
  exact ((unescape_reads_symbols Position.start).2.2 "\\\"\n").1
    [.sequence '\\' '\\' (by decide), .raw '"' (by decide), .sequence 'n' '\n' (by decide)] rfl

end Scriptlet.Token
