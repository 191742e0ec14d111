import Mathlib.Algebra.Order.Ring.Int
import Scriptlet.Machine.Run
import Scriptlet.Proofs.Machine.Effect

/-!
# Integer arithmetic

Sums, differences and products of integers are integers. Quotient and remainder go by the floor:
the remainder is between zero and the divisor, on the divisor's side, and the quotient is an integer
if the remainder is zero. Taking the remainder off first therefore always leaves an integer
quotient, and the two of them give the dividend back.

An operator looks at nothing but the two integers, so what it makes of them is said first
(`Operator.onNumerals_ints`), and then what an expression does whose operands give them
(`Eval.Settles.binary`).

* `Eval.Settles` : how an expression ends, whenever there is room enough.
* `Eval.Calculates` : what the five operators do to two expressions that give integers.
* `Eval.Divides` : what quotient and remainder have to do with each other.
-/

namespace Scriptlet

/-! ## Two integers -/

theorem fmod_between (a : Int) {b : Int} (hb : b ≠ 0) :
    0 ≤ a.fmod b ∧ a.fmod b < b ∨ b < a.fmod b ∧ a.fmod b ≤ 0 := by
  rcases lt_or_gt_of_ne hb with hneg | hpos
  · -- with the divisor both dividend and remainder change their signs
    have hflip : (-a).fmod (-b) = -a.fmod b := Int.neg_fmod_neg a b
    have hnonneg := Int.fmod_nonneg_of_pos (-a) (Int.neg_pos_of_neg hneg)
    have hlt := Int.fmod_lt_of_pos (-a) (Int.neg_pos_of_neg hneg)
    omega
  · exact .inl ⟨Int.fmod_nonneg_of_pos a hpos, Int.fmod_lt_of_pos a hpos⟩

namespace Operator

variable {o : Operator} {a b n : Int}

/-- Only zero may not divide; then an integer is made of two integers if the operator can, and
otherwise their doubles are taken. -/
theorem onNumerals_ints (hzero : o = .div ∨ o = .mod → b ≠ 0) :
    o.onNumerals (.int a) (.int b) =
      match o.onInts? a b with
      | some n => .ok (.int n)
      | none =>
        match o.rounded? (.int a) (.int b) with
        | some z => .ok (.float z)
        | none => .error (.outOfFloatRange o.sign) := by
  have hdiv : ¬ (o = .div ∧ (Numeral.int b).isZero = true) := fun hc =>
    hzero (.inl hc.1) (eq_of_beq hc.2)
  have hmod : ¬ (o = .mod ∧ (Numeral.int b).isZero = true) := fun hc =>
    hzero (.inr hc.1) (eq_of_beq hc.2)
  exact (if_neg hdiv).trans (if_neg hmod)

theorem onNumerals_of_some (hzero : o = .div ∨ o = .mod → b ≠ 0) (h : o.onInts? a b = some n) :
    o.onNumerals (.int a) (.int b) = .ok (.int n) := by
  rw [onNumerals_ints hzero, h]

/-- A result that is no integer is rounded, unless it is too large for that. -/
theorem onNumerals_of_none (hzero : o = .div ∨ o = .mod → b ≠ 0) (h : o.onInts? a b = none) :
    (∃ z, o.onNumerals (.int a) (.int b) = .ok (.float z)) ∨
      o.onNumerals (.int a) (.int b) = .error (.outOfFloatRange o.sign) := by
  rw [onNumerals_ints hzero, h]
  cases o.rounded? (.int a) (.int b) with
  | some z => exact .inl ⟨z, rfl⟩
  | none => exact .inr rfl

end Operator

namespace Store

theorem operate_ints {o : Operator} {v w : Value} {a b : Int} (ho : o.isArithmetic = true)
    (hv : v.numeral? = some (.int a)) (hw : w.numeral? = some (.int b)) (s : Store) (limit : Nat) :
    s.operate limit o v w = Numeral.value <$> o.onNumerals (.int a) (.int b) := by
  unfold operate
  rw [if_pos ho, arithmetic, hv, hw]
  change (do return (← o.onNumerals (.int a) (.int b)).value) = _
  cases o.onNumerals (.int a) (.int b) with
  | ok n => rfl
  | error fault => rfl

end Store

/-! ## Two expressions -/

/-- What a machine does with the answer to a question: it passes it on and stays as it is. -/
def Machine.pass (m : Machine) : Except Fault Value → EStateM.Result Fault Machine Value
  | .ok v => .ok v m
  | .error fault => .error fault m

namespace Eval

/-- With that many levels of nesting or more, the expression ends in this way. -/
def Settles (levels : Nat) (scope : ScopeId) (node : Node) (m : Machine)
    (r : EStateM.Result Fault Machine Value) : Prop :=
  ∀ depth, levels ≤ depth → value depth node scope m = r

theorem query_eq (f : Store → Except Fault Value) (m : Machine) :
    query f m = m.pass (f m.store) := by
  cases hf : f m.store with
  | ok v => exact Does.query_ok hf
  | error fault => exact Does.query_error hf

namespace Settles

variable {levels levels' : Nat} {scope : ScopeId} {x y node : Node} {m m₁ m₂ : Machine}
  {v w : Value} {o : Operator} {r r' : EStateM.Result Fault Machine Value}

theorem mono (h : Settles levels scope node m r) (hle : levels ≤ levels') :
    Settles levels' scope node m r := fun depth hd => h depth (hle.trans hd)

/-- An expression ends in one way only. -/
theorem unique (h : Settles levels scope node m r) (h' : Settles levels' scope node m r') :
    r = r' :=
  (h _ (Nat.le_max_left levels levels')).symm.trans (h' _ (Nat.le_max_right levels levels'))

/-- The operands come first, the left one before the right one; then the operator is asked about
their values. It takes one more level. -/
theorem binary {answer : Except Fault Value} (ho : o ≠ .instanceOf)
    (hx : Settles levels scope x m (.ok v m₁)) (hy : Settles levels scope y m₁ (.ok w m₂))
    (h : ∀ limit, m₂.store.operate limit o v w = answer) (line : Nat) :
    Settles (levels + 1) scope (.binary line o x y) m (m₂.pass answer) := by
  intro depth hd
  cases depth with
  | zero => cases hd
  | succ depth =>
    have hle := Nat.le_of_succ_le_succ hd
    rw [value, valueOf, Eval.binary, bind_ok (hx depth hle), if_neg ho, bind_ok (hy depth hle),
      query_eq, h]

end Settles

section Laws

variable (levels : Nat) (scope : ScopeId) (x y : Node) (m m' : Machine) (a b : Int)

/-- What quotient and remainder of two expressions have to do with each other, if these give `a` and
`b` and lead to the machine `m'`, and `r` is the remainder. -/
structure Divides (r : Int) : Prop where
  between : 0 ≤ r ∧ r < b ∨ b < r ∧ r ≤ 0
  mod : ∀ line, Settles levels scope (.binary line .mod x y) m (.ok (.int r) m')
  /-- The quotient is an integer just if there is no remainder. -/
  integer_iff : ∀ line, (∃ q box m'',
    Settles levels scope (.binary line .div x y) m (.ok (.primitive (.int q) box) m'')) ↔ r = 0
  /-- And this is the integer that it is. -/
  div_iff : ∀ line q,
    Settles levels scope (.binary line .div x y) m (.ok (.int q) m') ↔ q * b = a
  fraction : r ≠ 0 → ∀ line,
    (∃ z, Settles levels scope (.binary line .div x y) m (.ok (.float z) m')) ∨
      Settles levels scope (.binary line .div x y) m (.error (.outOfFloatRange "/") m')

/-- What the arithmetic operators do to two expressions that give the integers `a` and `b` and lead
to the machine `m'`. -/
structure Calculates : Prop where
  add : ∀ line, Settles levels scope (.binary line .add x y) m (.ok (.int (a + b)) m')
  sub : ∀ line, Settles levels scope (.binary line .sub x y) m (.ok (.int (a - b)) m')
  mul : ∀ line, Settles levels scope (.binary line .mul x y) m (.ok (.int (a * b)) m')
  divides : b ≠ 0 → ∃ r, Divides levels scope x y m m' a b r
  by_zero : b = 0 → ∃ f g : Fault, f.kind = .runtime ∧ g.kind = .runtime ∧ ∀ line,
    Settles levels scope (.binary line .div x y) m (.error f m') ∧
      Settles levels scope (.binary line .mod x y) m (.error g m')

end Laws

variable {levels : Nat} {scope : ScopeId} {x y : Node} {m m₁ m₂ : Machine} {v w : Value}
  {a b : Int}

section Operators

variable (hv : v.numeral? = some (.int a)) (hw : w.numeral? = some (.int b))
  (hx : Settles levels scope x m (.ok v m₁)) (hy : Settles levels scope y m₁ (.ok w m₂))

include hv hw hx hy

theorem settles_arithmetic {o : Operator} (ho : o.isArithmetic = true) (line : Nat) :
    Settles (levels + 1) scope (.binary line o x y) m
      (m₂.pass (Numeral.value <$> o.onNumerals (.int a) (.int b))) := by
  have hother : o ≠ .instanceOf := by
    rintro rfl
    cases ho
  exact .binary hother hx hy (Store.operate_ints ho hv hw m₂.store) line

theorem settles_int {o : Operator} {n : Int} (ho : o.isArithmetic = true)
    (hzero : o = .div ∨ o = .mod → b ≠ 0) (h : o.onInts? a b = some n) (line : Nat) :
    Settles (levels + 1) scope (.binary line o x y) m (.ok (.int n) m₂) := by
  have hasked := settles_arithmetic hv hw hx hy ho line
  rwa [Operator.onNumerals_of_some hzero h] at hasked

theorem settles_quotient (hb : b ≠ 0) (hr : a.fmod b = 0) (line : Nat) :
    Settles (levels + 1) scope (.binary line .div x y) m (.ok (.int (a.fdiv b)) m₂) := by
  have hwhole : Operator.div.onInts? a b = some (a.fdiv b) := if_pos hr
  exact settles_int hv hw hx hy rfl (fun _ => hb) hwhole line

theorem settles_fraction (hb : b ≠ 0) (hr : a.fmod b ≠ 0) (line : Nat) :
    (∃ z, Settles (levels + 1) scope (.binary line .div x y) m (.ok (.float z) m₂)) ∨
      Settles (levels + 1) scope (.binary line .div x y) m (.error (.outOfFloatRange "/") m₂) := by
  have hasked := settles_arithmetic hv hw hx hy (o := .div) rfl line
  have hnone : Operator.div.onInts? a b = none := if_neg hr
  rcases Operator.onNumerals_of_none (fun _ => hb) hnone with ⟨z, hz⟩ | hfault
  · rw [hz] at hasked
    exact .inl ⟨z, hasked⟩
  · rw [hfault] at hasked
    exact .inr hasked

theorem fmod_eq_zero_of_settles (hb : b ≠ 0) {line box : Nat} {q : Int} {m' : Machine}
    (h : Settles (levels + 1) scope (.binary line .div x y) m
      (.ok (.primitive (.int q) box) m')) : a.fmod b = 0 := by
  by_contra hr
  rcases settles_fraction hv hw hx hy hb hr line with ⟨z, hz⟩ | hfault
  · cases h.unique hz
  · cases h.unique hfault

theorem settles_quotient_iff (hb : b ≠ 0) (line : Nat) (q : Int) :
    Settles (levels + 1) scope (.binary line .div x y) m (.ok (.int q) m₂) ↔ q * b = a := by
  constructor
  · intro hq
    have hr := fmod_eq_zero_of_settles hv hw hx hy hb hq
    cases hq.unique (settles_quotient hv hw hx hy hb hr line)
    exact Int.fdiv_mul_cancel_of_fmod_eq_zero hr
  · rintro rfl
    have hq := settles_quotient hv hw hx hy hb (Int.mul_fmod_left q b) line
    rwa [Int.mul_fdiv_cancel q hb] at hq

theorem divides (hb : b ≠ 0) : Divides (levels + 1) scope x y m m₂ a b (a.fmod b) where
  between := fmod_between a hb
  mod := settles_int hv hw hx hy rfl (fun _ => hb) rfl
  integer_iff line :=
    ⟨fun ⟨_, _, _, hq⟩ => fmod_eq_zero_of_settles hv hw hx hy hb hq,
      fun hr => ⟨_, _, _, settles_quotient hv hw hx hy hb hr line⟩⟩
  div_iff := settles_quotient_iff hv hw hx hy hb
  fraction := settles_fraction hv hw hx hy hb

theorem calculates : Calculates (levels + 1) scope x y m m₂ a b where
  add := settles_int hv hw hx hy rfl (by simp) rfl
  sub := settles_int hv hw hx hy rfl (by simp) rfl
  mul := settles_int hv hw hx hy rfl (by simp) rfl
  divides hb := ⟨_, divides hv hw hx hy hb⟩
  by_zero := by
    rintro rfl
    refine ⟨.divisionByZero, .moduloByZero, rfl, rfl, fun line => ⟨?_, ?_⟩⟩
    · exact settles_arithmetic hv hw hx hy (o := .div) rfl line
    · exact settles_arithmetic hv hw hx hy (o := .mod) rfl line

end Operators

/-! ## Quotient and remainder together -/

/-- The quotient after the remainder is taken off, `(x - x % y) / y`. The operators may stand on
lines of their own. -/
def wholeQuotient (line : Nat → Nat) (x y : Node) : Node :=
  .binary (line 0) .div (.binary (line 1) .sub x (.binary (line 2) .mod x y)) y

/-- The question whether quotient and remainder give the dividend back,
`(x - x % y) / y * y + x % y == x`. -/
def recomposed (line : Nat → Nat) (x y : Node) : Node :=
  .binary (line 3) .eq
    (.binary (line 4) .add (.binary (line 5) .mul (wholeQuotient line x y) y)
      (.binary (line 6) .mod x y))
    x

theorem equal_int (h : v.numeral? = some (.int a)) : (Value.int a).equal v = true := by
  have hint : (Value.int a).numeral? = some (.int a) := rfl
  rw [Value.equal, hint, h]
  exact beq_self_eq_true _

/-- Expressions that change nothing may be evaluated again and again. -/
theorem settles_recomposed (hv : v.numeral? = some (.int a)) (hw : w.numeral? = some (.int b))
    (hx : Settles levels scope x m (.ok v m)) (hy : Settles levels scope y m (.ok w m))
    (hb : b ≠ 0) (line : Nat → Nat) :
    Settles (levels + 3) scope (wholeQuotient line x y) m (.ok (.int (a.fdiv b)) m) ∧
      Settles (levels + 6) scope (recomposed line x y) m (.ok (.bool true) m) := by
  have hx' (k : Nat) := hx.mono (Nat.le_add_right levels k)
  have hy' (k : Nat) := hy.mono (Nat.le_add_right levels k)
  have hsum : a.fdiv b * b + a.fmod b = a := Int.fdiv_mul_add_fmod a b
  -- from the inside out; each operator takes the integer that the last one gave
  have hmod := (divides hv hw hx hy hb).mod
  have hsub := (calculates hv rfl (hx' 1) (hmod (line 2))).sub (line 1)
  have hdiv : Settles (levels + 3) scope (wholeQuotient line x y) m (.ok (.int (a.fdiv b)) m) := by
    refine ((divides rfl hw hsub (hy' 2) hb).div_iff (line 0) (a.fdiv b)).mpr ?_
    exact eq_sub_of_add_eq hsum
  have hmul := (calculates rfl hw hdiv (hy' 3)).mul (line 5)
  have hadd := (calculates rfl rfl hmul ((hmod (line 6)).mono (by omega))).add (line 4)
  rw [hsum] at hadd
  have heq : ∀ limit, m.store.operate limit .eq (.int a) v = .ok (.bool true) := by
    intro limit
    rw [← equal_int hv]
    rfl
  exact ⟨hdiv, Settles.binary (by decide) hadd (hx' 5) heq (line 3)⟩

/-- Two expressions that give integers can be added, subtracted and multiplied, and divided unless
the second one gives zero, which is a fault of the running program. The remainder stands between
zero and the divisor, and the quotient is an integer if the remainder is zero, the one that times
the divisor is the dividend. If the two expressions change nothing, so that they may be evaluated
again, the quotient after taking off the remainder is an integer, and it gives the dividend back
with the divisor and the remainder. -/
theorem integer_division_fits (hv : v.numeral? = some (.int a)) (hw : w.numeral? = some (.int b))
    (hx : Settles levels scope x m (.ok v m₁)) (hy : Settles levels scope y m₁ (.ok w m₂)) :
    Calculates (levels + 1) scope x y m m₂ a b ∧
      (m₁ = m → m₂ = m → b ≠ 0 → ∃ q r, q * b + r = a ∧
        (∀ line, Settles (levels + 1) scope (.binary line .mod x y) m (.ok (.int r) m)) ∧
        ∀ line, Settles (levels + 3) scope (wholeQuotient line x y) m (.ok (.int q) m) ∧
          Settles (levels + 6) scope (recomposed line x y) m (.ok (.bool true) m)) := by
  refine ⟨calculates hv hw hx hy, ?_⟩
  rintro rfl rfl hb
  exact ⟨a.fdiv b, a.fmod b, Int.fdiv_mul_add_fmod a b, (divides hv hw hx hy hb).mod,
    settles_recomposed hv hw hx hy hb⟩

theorem settles_integer (line : Nat) (n : Int) (scope : ScopeId) (m : Machine) :
    Settles 1 scope (.integer line n) m (.ok (.int n) m) := by
  intro depth hd
  cases depth with
  | zero => cases hd
  | succ depth => rfl

/-- Minus seven by two: the remainder is one, and the quotient after that is minus four. By zero
there is neither. -/
theorem integer_division_of_negative_dividend :
    let x := Node.integer 1 (-7)
    let m := Machine.empty false
    let scope : ScopeId := ⟨0⟩
    (∃ q r, q * 2 + r = -7 ∧
      Settles 2 scope (.binary 1 .mod x (.integer 1 2)) m (.ok (.int r) m) ∧ 0 ≤ r ∧ r < 2 ∧
      Settles 4 scope (wholeQuotient (fun _ => 1) x (.integer 1 2)) m (.ok (.int q) m) ∧
      Settles 7 scope (recomposed (fun _ => 1) x (.integer 1 2)) m (.ok (.bool true) m)) ∧
    ∃ f : Fault, f.kind = .runtime ∧
      Settles 2 scope (.binary 1 .mod x (.integer 1 0)) m (.error f m) := by
  intro x m scope
  have hx := settles_integer 1 (-7) scope m
  obtain ⟨hcalculates, hfits⟩ :=
    integer_division_fits rfl rfl hx (settles_integer 1 2 scope m)
  obtain ⟨hnone, -⟩ := integer_division_fits rfl rfl hx (settles_integer 1 0 scope m)
  obtain ⟨q, r, hsum, hmod, hrest⟩ := hfits rfl rfl (by decide)
  obtain ⟨r', hdivides⟩ := hcalculates.divides (by decide)
  obtain ⟨f, g, -, hg, hfails⟩ := hnone.by_zero rfl
  cases (hmod 1).unique (hdivides.mod 1)
  have hbetween := hdivides.between
  exact ⟨⟨q, r, hsum, hmod 1, by omega, by omega, hrest _⟩, g, hg, (hfails 1).2⟩

end Eval

end Scriptlet
