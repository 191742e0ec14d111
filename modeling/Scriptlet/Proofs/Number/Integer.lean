import Mathlib.Data.List.Induction
import Scriptlet.Number.Integer

/-!
# Integers that are read and written

The decimal text of an integer has digits of one script only. Reading them gives the integer back,
and an integer can be read exactly when it can be written: both have the same limit.
-/

namespace Scriptlet

namespace Text.DecimalDigit

/-- The digits of the other scripts lie far behind the common ones. -/
theorem value?_of_lt {c : Char} (h : c.toNat < 0x660) :
    value? c = if 0x30 ≤ c.toNat ∧ c.toNat < 0x3a then some (c.toNat - 0x30) else none := by
  have far : ∀ start ∈ zeros.tail, 0x660 ≤ start := by decide
  have none_behind : zeros.tail.findSome? (fun start =>
      if start ≤ c.toNat ∧ c.toNat < start + 10 then some (c.toNat - start) else none) = none := by
    refine List.findSome?_eq_none_iff.mpr ?_
    intro start hs
    have := far start hs
    rw [if_neg (by omega)]
  show List.findSome? _ (0x30 :: zeros.tail) = _
  rw [List.findSome?_cons, none_behind]
  split <;> simp_all

theorem toNat_of_isDigit {c : Char} (h : c.isDigit = true) : 0x30 ≤ c.toNat ∧ c.toNat < 0x3a := by
  simp only [Char.isDigit, Bool.and_eq_true, decide_eq_true_eq] at h
  have h₁ : (48 : UInt32).toNat ≤ c.val.toNat := h.1
  have h₂ : c.val.toNat ≤ (57 : UInt32).toNat := h.2
  exact ⟨h₁, Nat.lt_succ_of_le h₂⟩

theorem value?_of_isDigit {c : Char} (h : c.isDigit = true) : value? c = some (c.toNat - 0x30) := by
  have hc := toNat_of_isDigit h
  rw [value?_of_lt (by omega), if_pos hc]

theorem isDigit_of_isDigit {c : Char} (h : c.isDigit = true) : isDigit c = true := by
  rw [isDigit, value?_of_isDigit h]
  rfl

/-- On the common digits the number is the usual one. -/
theorem number_eq_ofDigitChars {row : List Char} (h : ∀ c ∈ row, c.isDigit = true) :
    number row = Nat.ofDigitChars 10 row 0 := by
  have step : ∀ (row : List Char) (n : Nat), (∀ c ∈ row, c.isDigit = true) →
      row.foldl (fun n c => 10 * n + (value? c).getD 0) n = Nat.ofDigitChars 10 row n := by
    intro row
    induction row with
    | nil => intro n _; rfl
    | cons c row ih =>
      intro n hrow
      rw [List.foldl_cons, Nat.ofDigitChars_cons, value?_of_isDigit (hrow c List.mem_cons_self),
        ih _ fun d hd => hrow d (List.mem_cons_of_mem _ hd)]
      rfl
  exact step row 0 h

/-- A row of digits spells a number below the power of ten that its length gives. -/
theorem number_lt (row : List Char) : number row < Nat.pow 10 row.length := by
  induction row using List.reverseRecOn with
  | nil => simp
  | append_singleton row c ih =>
    rw [number_append_singleton, List.length_append, List.length_singleton]
    show _ < Nat.pow 10 row.length * 10
    have hd : (value? c).getD 0 < 10 := by
      cases hv : value? c with
      | none => simp
      | some d =>
        obtain ⟨start, -, h⟩ := List.exists_of_findSome?_eq_some hv
        split at h
        · next hr =>
          simp only [Option.some.injEq] at h
          simp only [Option.getD_some]
          omega
        · simp at h
    omega

end Text.DecimalDigit

namespace Number.Integer

open Text.DecimalDigit

/-- An integer that was read can be written. -/
theorem isSome_text?_of_read? {row : List Char} {n : Nat} (h : read? row = some n) (m : Int)
    (hm : m.natAbs = n) : (text? m).isSome = true := by
  unfold read? at h
  split at h
  · next hl =>
    simp only [Option.some.injEq] at h
    have hlt : m.natAbs < Nat.pow 10 digitLimit := by
      rw [hm, ← h]
      exact Nat.lt_of_lt_of_le (number_lt row) (Nat.pow_le_pow_right (by decide) hl)
    unfold text?
    rw [if_pos hlt]
    rfl
  · simp at h

theorem isDigit_of_mem_digits {n : Nat} {c : Char} (h : c ∈ digits n) : c.isDigit = true :=
  Nat.isDigit_of_mem_toDigits (by decide) (by decide) h

/-- An integer can be written unless it has too many digits. -/
theorem isSome_text?_iff {n : Int} :
    (text? n).isSome = true ↔ (digits n.natAbs).length ≤ digitLimit := by
  have hlength : (digits n.natAbs).length ≤ digitLimit ↔ n.natAbs < Nat.pow 10 digitLimit := by
    refine Nat.length_toDigits_le_iff (by decide) ?_
    unfold digitLimit
    decide
  rw [hlength, text?]
  split
  · next hlt => exact iff_of_true rfl hlt
  · next hge => exact iff_of_false Bool.false_ne_true hge

/-- The text of an integer is its digits, behind a minus sign if it is negative. -/
theorem text?_of_length_le {n : Int} (h : (digits n.natAbs).length ≤ digitLimit) :
    text? n = some (String.ofList (if n < 0 then '-' :: digits n.natAbs else digits n.natAbs)) := by
  have hsome := isSome_text?_iff.mpr h
  unfold text? at hsome ⊢
  split at hsome
  · next hlt => rw [if_pos hlt]
  · cases hsome

/-- The digits of an integer that can be written can be read, and give the integer. -/
theorem read?_digits {n : Int} (h : (text? n).isSome = true) :
    read? (digits n.natAbs) = some n.natAbs := by
  rw [read?, if_pos (isSome_text?_iff.mp h),
    number_eq_ofDigitChars fun c hc => isDigit_of_mem_digits hc, digits,
    Nat.ofDigitChars_toDigits (by decide) (by decide)]

end Number.Integer

end Scriptlet
