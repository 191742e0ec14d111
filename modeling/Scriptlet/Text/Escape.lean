/-!
# Escape sequences

Inside quoted literals a backslash and the character after it stand for one character. Seven such
pairs exist. `decode` reads them, `protect` writes a text so that it stands between double quotes.

* `decode` gives the text that was meant, or the character after the first backslash that begins no
  known pair (`none` when the text ends there).
* `decode_protect`: reading undoes writing.
-/

namespace Scriptlet.Text.Escape

/-- The character that a backslash and `c` stand for. -/
def meaning? (c : Char) : Option Char :=
  match c with
  | 'n' => some '\n'
  | 't' => some '\t'
  | 'r' => some '\r'
  | '0' => some '\x00'
  | '\\' => some '\\'
  | '"' => some '"'
  | '\'' => some '\''
  | _ => none

/-- Replaces every escape sequence by its meaning. Fails with the character after the backslash of
the first unknown sequence. -/
def decode : List Char → Except (Option Char) (List Char)
  | [] => .ok []
  | '\\' :: [] => .error none
  | '\\' :: c :: rest =>
    match meaning? c with
    | none => .error (some c)
    | some m => (decode rest).map (m :: ·)
  | c :: rest => (decode rest).map (c :: ·)

/-- Puts a backslash in front of every backslash and every double quote. -/
def protect (cs : List Char) : List Char :=
  cs.flatMap fun c => if c = '\\' ∨ c = '"' then ['\\', c] else [c]

/-- A character other than the backslash stands for itself. -/
theorem decode_cons_of_ne {c : Char} (h : c ≠ '\\') (rest : List Char) :
    decode (c :: rest) = (decode rest).map (c :: ·) := by
  rw [decode] <;> simp_all

/-- Reading undoes writing. -/
theorem decode_protect (cs : List Char) : decode (protect cs) = .ok cs := by
  induction cs with
  | nil => rfl
  | cons c cs ih =>
    simp only [protect, List.flatMap_cons] at ih ⊢
    by_cases h : c = '\\' ∨ c = '"'
    · rcases h with rfl | rfl <;> simp [decode, meaning?, ih, Except.map]
    · have hc : c ≠ '\\' := fun e => h (Or.inl e)
      simp [h, decode_cons_of_ne hc, ih, Except.map]

end Scriptlet.Text.Escape
