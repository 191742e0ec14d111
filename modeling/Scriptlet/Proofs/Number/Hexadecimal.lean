import Mathlib.Data.List.Induction
import Scriptlet.Number.Integer

/-!
# Hexadecimal spellings

A number has many spellings in hexadecimal: its digits may be written with letters of either case,
and any number of zeros may stand in front. `Hexadecimal` says which they are, without a reader.

The rows of hexadecimal digits that are read as a number are exactly its spellings
(`hexadecimal_iff`). So every such row spells one number and no other.
-/

namespace Scriptlet.Number.Integer

/-- The rows that spell a number in hexadecimal: its digits, each letter in lower or upper case,
and zeros in front of them. -/
inductive Hexadecimal (n : Nat) : List Char → Prop where
  | digits {row : List Char} (folded : row.map Char.toLower = Nat.toDigits 16 n) :
      Hexadecimal n row
  | zero {row : List Char} (rest : Hexadecimal n row) : Hexadecimal n ('0' :: row)

/-! ## One digit -/

theorem isHexDigit_iff {c : Char} :
    isHexDigit c = true ↔ (0x30 ≤ c.toNat ∧ c.toNat ≤ 0x39) ∨ (0x61 ≤ c.toNat ∧ c.toNat ≤ 0x66) ∨
      (0x41 ≤ c.toNat ∧ c.toNat ≤ 0x46) := by
  simp only [isHexDigit, Char.isDigit, Bool.or_eq_true, Bool.and_eq_true, decide_eq_true_eq,
    or_assoc]
  rfl

theorem hexValue_eq (c : Char) :
    hexValue c = if 0x30 ≤ c.toNat ∧ c.toNat ≤ 0x39 then c.toNat - 0x30
      else if 0x61 ≤ c.toNat then c.toNat - 0x61 + 10 else c.toNat - 0x41 + 10 := by
  have hdigit : c.isDigit = true ↔ 0x30 ≤ c.toNat ∧ c.toNat ≤ 0x39 := by
    simp only [Char.isDigit, Bool.and_eq_true, decide_eq_true_eq]
    rfl
  simp only [hexValue, hdigit]
  rfl

theorem hexValue_lt {c : Char} (h : isHexDigit c = true) : hexValue c < 16 := by
  rw [isHexDigit_iff] at h
  rw [hexValue_eq]
  split
  · omega
  · split <;> omega

theorem toNat_toLower (c : Char) :
    c.toLower.toNat = if 0x41 ≤ c.toNat ∧ c.toNat ≤ 0x5a then c.toNat + 32 else c.toNat := by
  unfold Char.toLower
  split
  · next h =>
    have hrange : 0x41 ≤ c.toNat ∧ c.toNat ≤ 0x5a := h
    rw [if_pos hrange]
    show (c.toNat + 32) % 2 ^ 32 = c.toNat + 32
    omega
  · next h => exact (if_neg h).symm

theorem toNat_digitChar :
    ∀ d < 16, (Nat.digitChar d).toNat = if d < 10 then 0x30 + d else 0x57 + d := by decide

/-- Apart from its case, a character is the digit of a value exactly if it is read as that value. -/
theorem toLower_eq_digitChar_iff {c : Char} {d : Nat} (hd : d < 16) :
    c.toLower = Nat.digitChar d ↔ isHexDigit c = true ∧ hexValue c = d := by
  rw [← Char.toNat_inj, toNat_toLower, toNat_digitChar d hd, isHexDigit_iff, hexValue_eq]
  grind

theorem toLower_of_isHexDigit {c : Char} (h : isHexDigit c = true) :
    c.toLower = Nat.digitChar (hexValue c) :=
  (toLower_eq_digitChar_iff (hexValue_lt h)).mpr ⟨h, rfl⟩

/-- Zero has no case. -/
theorem eq_zero_of_toLower {c : Char} (h : c.toLower = '0') : c = '0' := by
  rw [← Char.toNat_inj, toNat_toLower, show '0'.toNat = 0x30 from rfl] at h
  rw [← Char.toNat_inj, show '0'.toNat = 0x30 from rfl]
  split at h
  · omega
  · exact h

/-! ## Rows of digits -/

theorem hexNumber_append_singleton (row : List Char) (c : Char) :
    hexNumber (row ++ [c]) = 16 * hexNumber row + hexValue c := by
  simp [hexNumber, List.foldl_append]

theorem hexNumber_singleton (c : Char) : hexNumber [c] = hexValue c := by
  simp [hexNumber]

/-- A zero in front does not change the number. -/
theorem hexNumber_zero_cons (row : List Char) : hexNumber ('0' :: row) = hexNumber row := rfl

/-- The digits of a number, in either case, are read as the number. The induction goes as the digits
are written, from the last one to the first. -/
theorem hexNumber_of_folded {n : Nat} : ∀ {row : List Char},
    row.map Char.toLower = Nat.toDigits 16 n →
      (∀ c ∈ row, isHexDigit c = true) ∧ hexNumber row = n := by
  induction n using Nat.strongRecOn with
  | ind n ih =>
    intro row hrow
    by_cases hn : n < 16
    · rw [Nat.toDigits_of_lt_base hn] at hrow
      obtain ⟨c, rfl, hc⟩ := List.map_eq_singleton_iff.mp hrow
      obtain ⟨hdigit, hvalue⟩ := (toLower_eq_digitChar_iff hn).mp hc
      refine ⟨List.forall_mem_singleton.mpr hdigit, ?_⟩
      rw [hexNumber_singleton, hvalue]
    · rw [Nat.toDigits_of_base_le (by decide) (by omega)] at hrow
      obtain ⟨front, last, rfl, hfront, hlast⟩ := List.map_eq_append_iff.mp hrow
      obtain ⟨c, rfl, hc⟩ := List.map_eq_singleton_iff.mp hlast
      obtain ⟨hdigit, hvalue⟩ := (toLower_eq_digitChar_iff (Nat.mod_lt n (by decide))).mp hc
      obtain ⟨hdigits, hnumber⟩ := ih (n / 16) (by omega) hfront
      refine ⟨List.forall_mem_append.mpr ⟨hdigits, List.forall_mem_singleton.mpr hdigit⟩, ?_⟩
      rw [hexNumber_append_singleton, hnumber, hvalue, Nat.div_add_mod]

theorem Hexadecimal.singleton {c : Char} (h : isHexDigit c = true) :
    Hexadecimal (hexValue c) [c] := by
  refine .digits ?_
  rw [Nat.toDigits_of_lt_base (hexValue_lt h), List.map_singleton, toLower_of_isHexDigit h]

/-- One more digit behind a spelling. -/
theorem Hexadecimal.append_singleton {n : Nat} {row : List Char} {c : Char}
    (h : Hexadecimal n row) (hc : isHexDigit c = true) :
    Hexadecimal (16 * n + hexValue c) (row ++ [c]) := by
  induction h with
  | zero _ ih => exact .zero ih
  | @digits row folded =>
    by_cases hn : n = 0
    · -- the only digit of zero becomes a zero in front
      subst hn
      rw [Nat.toDigits_zero] at folded
      obtain ⟨z, rfl, hz⟩ := List.map_eq_singleton_iff.mp folded
      obtain rfl := eq_zero_of_toLower hz
      rw [Nat.mul_zero, Nat.zero_add]
      exact .zero (.singleton hc)
    · refine .digits ?_
      rw [List.map_append, folded, List.map_singleton, toLower_of_isHexDigit hc,
        ← Nat.toDigits_of_lt_base (hexValue_lt hc),
        Nat.toDigits_append_toDigits (by decide) (Nat.pos_of_ne_zero hn) (hexValue_lt hc)]

theorem hexadecimal_hexNumber {row : List Char} (hne : row ≠ [])
    (h : ∀ c ∈ row, isHexDigit c = true) : Hexadecimal (hexNumber row) row := by
  induction row using List.reverseRecOn with
  | nil => exact absurd rfl hne
  | append_singleton row c ih =>
    obtain ⟨hrow, hlast⟩ := List.forall_mem_append.mp h
    have hc := List.forall_mem_singleton.mp hlast
    by_cases hempty : row = []
    · subst hempty
      rw [List.nil_append, hexNumber_singleton]
      exact .singleton hc
    · rw [hexNumber_append_singleton]
      exact (ih hempty hrow).append_singleton hc

/-- The rows of hexadecimal digits that are read as a number are its spellings. -/
theorem hexadecimal_iff {n : Nat} {row : List Char} :
    Hexadecimal n row ↔ row ≠ [] ∧ (∀ c ∈ row, isHexDigit c = true) ∧ hexNumber row = n := by
  constructor
  · intro h
    induction h with
    | @digits row folded =>
      refine ⟨?_, hexNumber_of_folded folded⟩
      rintro rfl
      exact Nat.toDigits_ne_nil folded.symm
    | @zero row _ ih =>
      obtain ⟨-, hdigits, hnumber⟩ := ih
      exact ⟨List.cons_ne_nil _ _, List.forall_mem_cons.mpr ⟨by decide, hdigits⟩,
        (hexNumber_zero_cons row).trans hnumber⟩
  · rintro ⟨hne, hdigits, rfl⟩
    exact hexadecimal_hexNumber hne hdigits

end Scriptlet.Number.Integer
