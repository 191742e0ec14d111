/-!
# Bytes as text

Source files are read as UTF-8. A character takes one to four bytes; the first byte tells how many,
and the others all lie between `0x80` and `0xbf`. Some first bytes narrow the second one further,
which rules out longer spellings than needed, surrogates, and numbers above `0x10ffff`.

`decode` gives the text or the first place where it breaks off, with the reason: a byte that begins
no character, a byte that does not go on with the character before it, or the end of the data in
the middle of a character. The place covers the bytes of the character that were good.
-/

namespace Scriptlet.Text.Utf8

/-- Why a text breaks off. -/
inductive Reason where
  | badStart
  | badContinuation
  | truncated
  deriving DecidableEq, Repr

/-- A place where a text breaks off: the bytes from `start` on, `length` of them, the first being
`byte`. -/
structure Break where
  reason : Reason
  byte : Nat
  start : Nat
  length : Nat
  deriving DecidableEq, Repr

/-- The number of bytes of the character that a byte begins, and the range that the second byte has
to lie in. -/
def lead? (b : Nat) : Option (Nat × Nat × Nat) :=
  if b < 0x80 then some (1, 0x80, 0xbf)
  else if b < 0xc2 then none
  else if b < 0xe0 then some (2, 0x80, 0xbf)
  else if b = 0xe0 then some (3, 0xa0, 0xbf)
  else if b = 0xed then some (3, 0x80, 0x9f)
  else if b < 0xf0 then some (3, 0x80, 0xbf)
  else if b = 0xf0 then some (4, 0x90, 0xbf)
  else if b < 0xf4 then some (4, 0x80, 0xbf)
  else if b = 0xf4 then some (4, 0x80, 0x8f)
  else none

/-- The bits of the first byte of a character that belong to its number. -/
def leadBits (length b : Nat) : Nat :=
  match length with
  | 1 => b
  | 2 => b % 0x20
  | 3 => b % 0x10
  | _ => b % 0x08

/-- Takes `needed` more bytes of a character, the next one between `low` and `high`. Gives the
number of the character and the rest, or the reason and how many bytes were good. -/
def continuation : Nat → Nat → Nat → Nat → Nat → List Nat → Except (Reason × Nat) (Nat × List Nat)
  | 0, _, _, code, _, rest => .ok (code, rest)
  | _ + 1, _, _, _, good, [] => .error (.truncated, good)
  | needed + 1, low, high, code, good, b :: rest =>
    if low ≤ b ∧ b ≤ high then
      continuation needed 0x80 0xbf (code * 0x40 + b % 0x40) (good + 1) rest
    else .error (.badContinuation, good)

/-- Taking bytes leaves no more than there were. -/
theorem length_continuation {needed low high code good : Nat} {bytes rest : List Nat} {c : Nat}
    (h : continuation needed low high code good bytes = .ok (c, rest)) :
    rest.length ≤ bytes.length := by
  fun_induction continuation needed low high code good bytes with
  | case1 => simp_all
  | case2 => simp at h
  | case3 _ _ _ _ _ _ _ _ ih => exact Nat.le_succ_of_le (ih h)
  | case4 => simp at h

/-- Decodes bytes from a position on; `found` are the characters before them, last first. -/
def decodeFrom (position : Nat) (bytes : List Nat) (found : List Char) :
    Except Break (List Char) :=
  match bytes with
  | [] => .ok found.reverse
  | b :: rest =>
    match lead? b with
    | none => .error ⟨.badStart, b, position, 1⟩
    | some (length, low, high) =>
      match _h : continuation (length - 1) low high (leadBits length b) 1 rest with
      | .error (reason, good) => .error ⟨reason, b, position, good⟩
      | .ok (code, after) => decodeFrom (position + length) after (Char.ofNat code :: found)
termination_by bytes.length
decreasing_by
  have := length_continuation (by assumption)
  simp
  omega

/-- The text that bytes encode. -/
def decode (bytes : List Nat) : Except Break (List Char) := decodeFrom 0 bytes []

/-- Line ends as single newlines, whichever way they are written. -/
def unixNewlines : List Char → List Char
  | [] => []
  | '\r' :: '\n' :: rest => '\n' :: unixNewlines rest
  | '\r' :: rest => '\n' :: unixNewlines rest
  | c :: rest => c :: unixNewlines rest

end Scriptlet.Text.Utf8
