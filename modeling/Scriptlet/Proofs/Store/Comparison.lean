import Mathlib.Algebra.Order.Field.Rat
import Mathlib.Data.List.Lex
import Mathlib.Data.Rat.Cast.Order
import Mathlib.Order.WithBot
import Scriptlet.Store.Operation

/-!
# How values compare

Numbers are compared by their exact values, whether they are integers or floats; nothing is rounded
on the way, however large an integer is. Texts are compared by their code points. In both cases the
operators look at a key of each operand, and the keys are in a linear order, so the laws of the
comparisons are those of the keys (`Store.ComparesBy.totallyOrdered`).

Equality is asked of all values. It comes down to one thing in each value as well
(`Value.essence`): the exact value of a number, and everything else without its box.

* `Value.amount?` : the value of a number, a rational number or an infinity.
* `Value.codes?` : the code points of a text.
* `Store.Affirms`, `Store.Denies`, `Store.Decides` : what an operator says about two values.
* `Store.TotallyOrdered` : the laws of the four comparisons.
-/

namespace Scriptlet

open Number

/-! ## Exact amounts -/

/-- A rational number, or one of the two infinities. -/
abbrev Extended := WithBot (WithTop ℚ)

namespace Extended

/-- A rational number between the infinities. -/
def ofRat (q : ℚ) : Extended := ((q : WithTop ℚ) : WithBot (WithTop ℚ))

@[simp] theorem ofRat_lt_ofRat {q r : ℚ} : ofRat q < ofRat r ↔ q < r :=
  WithBot.coe_lt_coe.trans WithTop.coe_lt_coe

@[simp] theorem bot_lt_ofRat (q : ℚ) : ⊥ < ofRat q := WithBot.bot_lt_coe _

@[simp] theorem ofRat_lt_top (q : ℚ) : ofRat q < ⊤ :=
  WithBot.coe_lt_coe.mpr (WithTop.coe_lt_top q)

end Extended

namespace Number.Double

/-- The unit that finite doubles are counted in. -/
def unit : ℚ := (2 ^ 1074)⁻¹

theorem unit_pos : 0 < unit := inv_pos.mpr (pow_pos two_pos 1074)

theorem one_mul_unit : (one : ℚ) * unit = 1 := by
  unfold one unit
  generalize 1074 = n
  rw [Nat.pow_eq, Nat.cast_pow, Nat.cast_ofNat]
  exact mul_inv_cancel₀ (pow_ne_zero n two_ne_zero)

/-- What a double stands for exactly. -/
def amount? : Double → Option Extended
  | nan => none
  | infinite true => some ⊥
  | infinite false => some ⊤
  | finite negative units => some (.ofRat (signed negative units * unit))

end Number.Double

/-- What a number stands for exactly. -/
def Numeral.amount? : Numeral → Option Extended
  | .int n => some (.ofRat n)
  | .float x => x.amount?

/-- The place on the line is that of the exact value. -/
inductive Place.Of : Place → Extended → Prop where
  | below : Of ⟨-1, 0⟩ ⊥
  | among (units : Int) : Of ⟨0, units⟩ (.ofRat (units * Double.unit))
  | above : Of ⟨1, 0⟩ ⊤

theorem Numeral.place?_of_amount? {a : Numeral} {x : Extended} (h : a.amount? = some x) :
    ∃ p, a.place? = some p ∧ p.Of x := by
  match a with
  | .int n =>
    cases h
    have hunits := Place.Of.among (n * Double.one)
    rw [Int.cast_mul, Int.cast_natCast, mul_assoc, Double.one_mul_unit, mul_one] at hunits
    exact ⟨_, rfl, hunits⟩
  | .float .nan => cases h
  | .float (.infinite true) =>
    cases h
    exact ⟨_, rfl, .below⟩
  | .float (.infinite false) =>
    cases h
    exact ⟨_, rfl, .above⟩
  | .float (.finite negative units) =>
    cases h
    exact ⟨_, rfl, .among _⟩

theorem Place.Of.lt_iff {p q : Place} {x y : Extended} (hp : p.Of x) (hq : q.Of y) :
    p.lt q = true ↔ x < y := by
  have hunits : ∀ u v : Int, (u : ℚ) * Double.unit < v * Double.unit ↔ u < v := fun u v => by
    rw [mul_lt_mul_iff_left₀ Double.unit_pos, Int.cast_lt]
  cases hp with
  | below =>
    cases hq with
    | below => simp [Place.lt]
    | among v => simp [Place.lt]
    | above => simp [Place.lt]
  | among u =>
    cases hq with
    | below => simp [Place.lt]
    | among v => simp [Place.lt, hunits]
    | above => simp [Place.lt]
  | above =>
    cases hq with
    | below => simp [Place.lt]
    | among v => simp [Place.lt]
    | above => simp [Place.lt]

/-- Places are the same if none of them is left of the other. -/
theorem Place.eq_iff_not_lt {p q : Place} : p = q ↔ ¬ p.lt q = true ∧ ¬ q.lt p = true := by
  obtain ⟨rank, units⟩ := p
  obtain ⟨rank', units'⟩ := q
  simp only [Place.mk.injEq, Place.lt, Bool.or_eq_true, Bool.and_eq_true, decide_eq_true_eq,
    beq_iff_eq]
  omega

theorem Place.Of.eq_iff {p q : Place} {x y : Extended} (hp : p.Of x) (hq : q.Of y) :
    p = q ↔ x = y := by
  rw [Place.eq_iff_not_lt, hp.lt_iff hq, hq.lt_iff hp, not_lt, not_lt, and_comm]
  exact le_antisymm_iff.symm

namespace Numeral

variable {a b : Numeral} {x y : Extended}

theorem lt_iff (ha : a.amount? = some x) (hb : b.amount? = some y) : a.lt b = true ↔ x < y := by
  obtain ⟨p, hp, hpx⟩ := place?_of_amount? ha
  obtain ⟨q, hq, hqy⟩ := place?_of_amount? hb
  rw [Numeral.lt, hp, hq]
  exact hpx.lt_iff hqy

theorem eq_iff (ha : a.amount? = some x) (hb : b.amount? = some y) : a.eq b = true ↔ x = y := by
  obtain ⟨p, hp, hpx⟩ := place?_of_amount? ha
  obtain ⟨q, hq, hqy⟩ := place?_of_amount? hb
  rw [Numeral.eq, hp, hq]
  exact beq_iff_eq.trans (hpx.eq_iff hqy)

theorem exists_amount? (h : a ≠ .float .nan) : ∃ x, a.amount? = some x := by
  match a with
  | .int n => exact ⟨_, rfl⟩
  | .float .nan => exact absurd rfl h
  | .float (.infinite true) => exact ⟨_, rfl⟩
  | .float (.infinite false) => exact ⟨_, rfl⟩
  | .float (.finite negative units) => exact ⟨_, rfl⟩

end Numeral

namespace Value

/-- The value is a float that stands for no number. -/
def IsNaN (v : Value) : Prop := v.numeral? = some (.float .nan)

/-- The value is an integer, or a float that stands for a number. -/
def IsNumber (v : Value) : Prop := v.numeral?.isSome = true ∧ ¬ v.IsNaN

/-- What the number in a value stands for exactly. -/
def amount? (v : Value) : Option Extended := v.numeral?.bind Numeral.amount?

/-- The value is a string or a char. -/
def IsText (v : Value) : Prop := v.characters?.isSome = true

/-- The code points of a text. -/
def codes? (v : Value) : Option (List Nat) :=
  v.characters?.map fun text => text.toList.map Char.toNat

variable {v w : Value}

theorem exists_amount? {a : Numeral} (h : v.numeral? = some a) (hn : ¬ v.IsNaN) :
    ∃ x, a.amount? = some x ∧ v.amount? = some x := by
  obtain ⟨x, hx⟩ := a.exists_amount? fun he => hn (h.trans (congrArg some he))
  exact ⟨x, hx, by rw [amount?, h]; exact hx⟩

theorem IsNumber.exists_amount? (h : v.IsNumber) : ∃ x, v.amount? = some x := by
  obtain ⟨a, ha⟩ := Option.isSome_iff_exists.mp h.1
  obtain ⟨x, -, hx⟩ := Value.exists_amount? ha h.2
  exact ⟨x, hx⟩

theorem amount?_eq_some {x : Extended} (h : v.amount? = some x) :
    ∃ a, v.numeral? = some a ∧ a.amount? = some x := Option.bind_eq_some_iff.mp h

theorem characters?_cases {t : String} (h : v.characters? = some t) :
    (∃ box, v = primitive (.string t) box) ∨
      ∃ c box, v = primitive (.char c) box ∧ c.toString = t := by
  match v with
  | primitive (.string _) box =>
    cases h
    exact .inl ⟨box, rfl⟩
  | primitive (.char c) box => exact .inr ⟨c, box, rfl, Option.some.inj h⟩

/-- A text is no number. -/
theorem numeral?_of_characters? {t : String} (h : v.characters? = some t) : v.numeral? = none := by
  obtain ⟨box, rfl⟩ | ⟨c, box, rfl, -⟩ := characters?_cases h
  · rfl
  · rfl

/-! ## Equality -/

/-- What counts of a value when equality is asked: a number stands for itself, whatever its kind,
and the box of a primitive does not matter. -/
def essence (v : Value) : Extended ⊕ Value :=
  match v.amount? with
  | some x => .inl x
  | none => .inr v.detach

theorem essence_of_amount? {x : Extended} (h : v.amount? = some x) : v.essence = .inl x := by
  rw [essence, h]

theorem essence_of_not_numeral (h : v.numeral? = none) : v.essence = .inr v.detach := by
  rw [essence, amount?, h]
  rfl

theorem numeral?_detach (v : Value) : v.detach.numeral? = v.numeral? := by
  match v with
  | undefined | object _ | array _ | foreign _ _ => rfl
  | primitive p _ => cases p <;> rfl

theorem alike_primitive_iff {p q : Primitive}
    (h : (primitive p 0).numeral? = none ∨ (primitive q 0).numeral? = none) :
    p.alike q = true ↔ p = q := by
  cases p <;> cases q <;> simp [Primitive.alike, numeral?] at h ⊢

/-- Values that are not both numbers are equal if they are the same but for their boxes. -/
theorem alike_iff_detach (h : v.numeral? = none ∨ w.numeral? = none) :
    v.alike w = true ↔ v.detach = w.detach := by
  rw [← numeral?_detach v, ← numeral?_detach w] at h
  match v, w with
  | primitive p _, primitive q _ =>
    rw [alike, alike_primitive_iff h]
    simp [detach]
  | primitive _ _, undefined | primitive _ _, object _ | primitive _ _, array _
  | primitive _ _, foreign _ _ => simp [alike, detach]
  | undefined, w | object _, w | array _, w | foreign _ _, w => cases w <;> simp [alike, detach]

/-- Equality is equality of essences. -/
theorem equal_iff (hv : ¬ v.IsNaN) (hw : ¬ w.IsNaN) :
    v.equal w = true ↔ v.essence = w.essence := by
  -- a number is no copy of anything else
  have apart : ∀ {v w : Value} {a : Numeral}, v.numeral? = some a → w.numeral? = none →
      v.detach ≠ w.detach := by
    intro v w a ha hb he
    rw [← numeral?_detach, he, numeral?_detach, hb] at ha
    cases ha
  cases ha : v.numeral? with
  | some a =>
    obtain ⟨x, hax, hvx⟩ := exists_amount? ha hv
    rw [essence_of_amount? hvx]
    cases hb : w.numeral? with
    | some b =>
      obtain ⟨y, hby, hwy⟩ := exists_amount? hb hw
      rw [essence_of_amount? hwy, Sum.inl.injEq, equal, ha, hb]
      exact Numeral.eq_iff hax hby
    | none =>
      rw [essence_of_not_numeral hb, equal, ha, hb]
      refine iff_of_false ?_ Sum.inl_ne_inr
      rw [alike_iff_detach (.inr hb)]
      exact apart ha hb
  | none =>
    rw [essence_of_not_numeral ha, equal, ha, alike_iff_detach (.inl ha)]
    cases hb : w.numeral? with
    | some b =>
      obtain ⟨y, -, hwy⟩ := exists_amount? hb hw
      rw [essence_of_amount? hwy]
      exact iff_of_false (apart hb ha).symm Sum.inr_ne_inl
    | none => rw [essence_of_not_numeral hb, Sum.inr.injEq]

end Value

/-! ## Code points -/

/-- The order of characters is that of their numbers. -/
theorem map_toNat_lt_iff (k l : List Char) : k.map Char.toNat < l.map Char.toNat ↔ k < l := by
  have hchar : ∀ c d : Char, c.toNat < d.toNat ↔ c < d := fun c d => UInt32.lt_iff_toNat_lt.symm
  induction k generalizing l with
  | nil => cases l <;> simp
  | cons c k ih =>
    cases l with
    | nil => simp
    | cons d l => simp [List.cons_lt_cons_iff, ih, hchar, Char.toNat_inj]

theorem map_toNat_inj {t u : String} :
    t.toList.map Char.toNat = u.toList.map Char.toNat ↔ t = u := by
  rw [(List.map_injective_iff.mpr fun c d => Char.toNat_inj.mp).eq_iff, String.toList_inj]

namespace Store

variable {s : Store} {o : Operator} {a b : Value} {P : Prop}

/-! ## What an operator says -/

/-- The operator says yes, whatever room for nesting there is. -/
def Affirms (s : Store) (o : Operator) (a b : Value) : Prop :=
  ∀ limit, s.operate limit o a b = .ok (.bool true)

/-- The operator says no. -/
def Denies (s : Store) (o : Operator) (a b : Value) : Prop :=
  ∀ limit, s.operate limit o a b = .ok (.bool false)

/-- The operator gives an answer, which tells whether the statement is true. -/
def Decides (s : Store) (o : Operator) (a b : Value) (P : Prop) : Prop :=
  (P → s.Affirms o a b) ∧ (¬ P → s.Denies o a b)

theorem decides_of_eq {verdict : Bool} (h : ∀ limit, s.operate limit o a b = .ok (.bool verdict))
    (hP : verdict = true ↔ P) : s.Decides o a b P := by
  cases verdict with
  | true => exact ⟨fun _ => h, fun hnot => absurd (hP.mp rfl) hnot⟩
  | false => exact ⟨fun hyes => absurd (hP.mpr hyes) Bool.false_ne_true, fun _ => h⟩

theorem Denies.not_affirms (h : s.Denies o a b) : ¬ s.Affirms o a b := by
  intro hyes
  have heq := (hyes 0).symm.trans (h 0)
  cases heq

theorem Decides.affirms_iff (h : s.Decides o a b P) : s.Affirms o a b ↔ P := by
  by_cases hP : P
  · exact iff_of_true (h.1 hP) hP
  · exact iff_of_false (h.2 hP).not_affirms hP

theorem Decides.affirms_or_denies (h : s.Decides o a b P) : s.Affirms o a b ∨ s.Denies o a b :=
  (em P).imp h.1 h.2

theorem Decides.congr {Q : Prop} (h : s.Decides o a b P) (hPQ : P ↔ Q) : s.Decides o a b Q :=
  ⟨fun hQ => h.1 (hPQ.mpr hQ), fun hQ => h.2 fun hP => hQ (hPQ.mp hP)⟩

theorem decides_eq (s : Store) (a b : Value) : s.Decides .eq a b (a.equal b = true) :=
  decides_of_eq (fun _ => rfl) Iff.rfl

/-! ## Comparisons by keys -/

/-- The comparisons are those of keys in a linear order. -/
structure ComparesBy {κ : Type} [LinearOrder κ] (s : Store) (key? : Value → Option κ) : Prop where
  lt : ∀ {a b x y}, key? a = some x → key? b = some y → s.Decides .lt a b (x < y)
  gt : ∀ {a b x y}, key? a = some x → key? b = some y → s.Decides .gt a b (y < x)
  le : ∀ {a b x y}, key? a = some x → key? b = some y → s.Decides .le a b (x ≤ y)
  ge : ∀ {a b x y}, key? a = some x → key? b = some y → s.Decides .ge a b (y ≤ x)

/-- What is to be shown of an order. -/
theorem ComparesBy.of_compare {κ : Type} [LinearOrder κ] {key? : Value → Option κ}
    (h : ∀ {a b x y}, key? a = some x → key? b = some y → ∃ lt eq gt : Bool,
      (∀ o, s.compare o a b = .ok (.bool (o.holds lt eq gt))) ∧
      (lt = true ↔ x < y) ∧ (eq = true ↔ x = y) ∧ (gt = true ↔ y < x)) :
    s.ComparesBy key? where
  lt ha hb := by
    obtain ⟨lt, eq, gt, hcompare, hlt, -, -⟩ := h ha hb
    exact decides_of_eq (fun _ => hcompare .lt) hlt
  gt ha hb := by
    obtain ⟨lt, eq, gt, hcompare, -, -, hgt⟩ := h ha hb
    exact decides_of_eq (fun _ => hcompare .gt) hgt
  le ha hb := by
    obtain ⟨lt, eq, gt, hcompare, hlt, heq, -⟩ := h ha hb
    refine decides_of_eq (fun _ => hcompare .le) ?_
    rw [Operator.holds, Bool.or_eq_true, hlt, heq, le_iff_lt_or_eq]
  ge ha hb := by
    obtain ⟨lt, eq, gt, hcompare, -, heq, hgt⟩ := h ha hb
    refine decides_of_eq (fun _ => hcompare .ge) ?_
    rw [Operator.holds, Bool.or_eq_true, hgt, heq, le_iff_lt_or_eq, eq_comm]

theorem comparesBy_amount? (s : Store) : s.ComparesBy Value.amount? := by
  refine .of_compare ?_
  intro a b x y ha hb
  obtain ⟨m, hm, hmx⟩ := Value.amount?_eq_some ha
  obtain ⟨n, hn, hny⟩ := Value.amount?_eq_some hb
  refine ⟨m.lt n, m.eq n, n.lt m, ?_, Numeral.lt_iff hmx hny, Numeral.eq_iff hmx hny,
    Numeral.lt_iff hny hmx⟩
  intro o
  rw [compare, hm, hn]

theorem comparesBy_codes? (s : Store) : s.ComparesBy Value.codes? := by
  refine .of_compare ?_
  intro a b x y ha hb
  obtain ⟨t, ht, rfl⟩ := Option.map_eq_some_iff.mp ha
  obtain ⟨u, hu, rfl⟩ := Option.map_eq_some_iff.mp hb
  refine ⟨decide (t < u), t == u, decide (u < t), ?_, ?_, ?_, ?_⟩
  · intro o
    rw [compare, Value.numeral?_of_characters? ht, ht, hu]
  · rw [decide_eq_true_iff, map_toNat_lt_iff]
    rfl
  · rw [beq_iff_eq, map_toNat_inj]
  · rw [decide_eq_true_iff, map_toNat_lt_iff]
    rfl

/-! ## The laws -/

/-- The four comparisons are defined on values of some sort and make up one total order, in which
`same` tells what is on one level. -/
structure TotallyOrdered (s : Store) (D : Value → Prop) (same : Value → Value → Prop) : Prop where
  decided : ∀ o, o.isComparison = true → ∀ a b, D a → D b → s.Affirms o a b ∨ s.Denies o a b
  exactly_one : ∀ a b, D a → D b →
    s.Affirms .lt a b ∧ ¬ same a b ∧ ¬ s.Affirms .gt a b ∨
    ¬ s.Affirms .lt a b ∧ same a b ∧ ¬ s.Affirms .gt a b ∨
    ¬ s.Affirms .lt a b ∧ ¬ same a b ∧ s.Affirms .gt a b
  lt_trans : ∀ a b c, D a → D b → D c →
    s.Affirms .lt a b → s.Affirms .lt b c → s.Affirms .lt a c
  same_equivalence : Equivalence fun a b : { v // D v } => same a b
  le_iff : ∀ a b, D a → D b → (s.Affirms .le a b ↔ s.Affirms .lt a b ∨ same a b)
  gt_iff : ∀ a b, D a → D b → (s.Affirms .gt a b ↔ s.Affirms .lt b a)
  ge_iff : ∀ a b, D a → D b → (s.Affirms .ge a b ↔ s.Affirms .le b a)

/-- The laws are those of the keys. -/
theorem ComparesBy.totallyOrdered {κ : Type} [LinearOrder κ] {key? : Value → Option κ}
    (h : s.ComparesBy key?) {D : Value → Prop} {same : Value → Value → Prop}
    (hkey : ∀ a, D a → ∃ x, key? a = some x)
    (hsame : ∀ {a b x y}, key? a = some x → key? b = some y → (same a b ↔ x = y)) :
    s.TotallyOrdered D same where
  decided o ho a b ha hb := by
    obtain ⟨x, hx⟩ := hkey a ha
    obtain ⟨y, hy⟩ := hkey b hb
    match o with
    | .lt => exact (h.lt hx hy).affirms_or_denies
    | .gt => exact (h.gt hx hy).affirms_or_denies
    | .le => exact (h.le hx hy).affirms_or_denies
    | .ge => exact (h.ge hx hy).affirms_or_denies
  exactly_one a b ha hb := by
    obtain ⟨x, hx⟩ := hkey a ha
    obtain ⟨y, hy⟩ := hkey b hb
    rw [(h.lt hx hy).affirms_iff, (h.gt hx hy).affirms_iff, hsame hx hy]
    rcases lt_trichotomy x y with hlt | heq | hgt
    · exact .inl ⟨hlt, hlt.ne, hlt.not_gt⟩
    · exact .inr (.inl ⟨heq.not_lt, heq, heq.not_gt⟩)
    · exact .inr (.inr ⟨hgt.not_gt, hgt.ne', hgt⟩)
  lt_trans a b c ha hb hc hab hbc := by
    obtain ⟨x, hx⟩ := hkey a ha
    obtain ⟨y, hy⟩ := hkey b hb
    obtain ⟨z, hz⟩ := hkey c hc
    rw [(h.lt hx hy).affirms_iff] at hab
    rw [(h.lt hy hz).affirms_iff] at hbc
    exact (h.lt hx hz).affirms_iff.mpr (hab.trans hbc)
  same_equivalence := by
    refine ⟨?_, ?_, ?_⟩
    · rintro ⟨a, ha⟩
      obtain ⟨x, hx⟩ := hkey a ha
      exact (hsame hx hx).mpr rfl
    · rintro ⟨a, ha⟩ ⟨b, hb⟩ hab
      obtain ⟨x, hx⟩ := hkey a ha
      obtain ⟨y, hy⟩ := hkey b hb
      exact (hsame hy hx).mpr ((hsame hx hy).mp hab).symm
    · rintro ⟨a, ha⟩ ⟨b, hb⟩ ⟨c, hc⟩ hab hbc
      obtain ⟨x, hx⟩ := hkey a ha
      obtain ⟨y, hy⟩ := hkey b hb
      obtain ⟨z, hz⟩ := hkey c hc
      exact (hsame hx hz).mpr (((hsame hx hy).mp hab).trans ((hsame hy hz).mp hbc))
  le_iff a b ha hb := by
    obtain ⟨x, hx⟩ := hkey a ha
    obtain ⟨y, hy⟩ := hkey b hb
    rw [(h.le hx hy).affirms_iff, (h.lt hx hy).affirms_iff, hsame hx hy, le_iff_lt_or_eq]
  gt_iff a b ha hb := by
    obtain ⟨x, hx⟩ := hkey a ha
    obtain ⟨y, hy⟩ := hkey b hb
    rw [(h.gt hx hy).affirms_iff, (h.lt hy hx).affirms_iff]
  ge_iff a b ha hb := by
    obtain ⟨x, hx⟩ := hkey a ha
    obtain ⟨y, hy⟩ := hkey b hb
    rw [(h.ge hx hy).affirms_iff, (h.le hy hx).affirms_iff]

theorem affirms_eq_iff (ha : ¬ a.IsNaN) (hb : ¬ b.IsNaN) :
    s.Affirms .eq a b ↔ a.essence = b.essence :=
  (s.decides_eq a b).affirms_iff.trans (Value.equal_iff ha hb)

/-- Two numbers are equal if they stand for the same. -/
theorem affirms_eq_iff_amount? {x y : Extended} (ha : a.amount? = some x)
    (hb : b.amount? = some y) : s.Affirms .eq a b ↔ x = y := by
  obtain ⟨m, hm, hmx⟩ := Value.amount?_eq_some ha
  obtain ⟨n, hn, hny⟩ := Value.amount?_eq_some hb
  rw [(s.decides_eq a b).affirms_iff, Value.equal, hm, hn]
  exact Numeral.eq_iff hmx hny

/-- Two texts of one kind are equal if they have the same code points. -/
theorem affirms_eq_iff_codes? {k l : List Nat} (ha : a.codes? = some k) (hb : b.codes? = some l)
    (hkind : s.typeName a = s.typeName b) : s.Affirms .eq a b ↔ k = l := by
  obtain ⟨t, ht, rfl⟩ := Option.map_eq_some_iff.mp ha
  obtain ⟨u, hu, rfl⟩ := Option.map_eq_some_iff.mp hb
  rw [(s.decides_eq a b).affirms_iff, map_toNat_inj]
  obtain ⟨_, rfl⟩ | ⟨c, _, rfl, rfl⟩ := Value.characters?_cases ht
  · obtain ⟨_, rfl⟩ | ⟨d, _, rfl, rfl⟩ := Value.characters?_cases hu
    · exact beq_iff_eq
    · simp [typeName] at hkind
  · obtain ⟨_, rfl⟩ | ⟨d, _, rfl, rfl⟩ := Value.characters?_cases hu
    · simp [typeName] at hkind
    · have hchar : c.toString = d.toString ↔ c = d := by simp [← String.toList_inj, Char.toString]
      rw [hchar]
      exact beq_iff_eq

/-- Numbers are compared by their exact values and texts by their code points, and each of the two
is a total order. Equality is an equivalence of all values but those that are not a number; it goes
with the order of numbers, with that of strings and with that of chars. -/
theorem comparisons_are_coherent (s : Store) :
    (s.TotallyOrdered Value.IsNumber (s.Affirms .eq) ∧
      ∀ a b, a.IsNumber → b.IsNumber → ∃ x y, a.amount? = some x ∧ b.amount? = some y ∧
        s.Decides .lt a b (x < y) ∧ s.Decides .eq a b (x = y)) ∧
    (s.TotallyOrdered Value.IsText (fun a b => a.codes? = b.codes?) ∧
      ∀ a b, a.IsText → b.IsText →
        (∃ k l, a.codes? = some k ∧ b.codes? = some l ∧ s.Decides .lt a b (k < l)) ∧
        (s.typeName a = s.typeName b →
          s.Decides .eq a b (¬ s.Affirms .lt a b ∧ ¬ s.Affirms .lt b a))) ∧
    (∀ a b, s.Affirms .eq a b ∨ s.Denies .eq a b) ∧
    Equivalence fun a b : { v : Value // ¬ v.IsNaN } => s.Affirms .eq a b := by
  have codes : ∀ a : Value, a.IsText → ∃ k, a.codes? = some k := by
    intro a ha
    obtain ⟨t, ht⟩ := Option.isSome_iff_exists.mp ha
    exact ⟨_, by rw [Value.codes?, ht]; rfl⟩
  refine ⟨⟨?_, ?_⟩, ⟨?_, ?_⟩, ?_, ?_⟩
  · exact s.comparesBy_amount?.totallyOrdered (fun a ha => ha.exists_amount?) affirms_eq_iff_amount?
  · intro a b ha hb
    obtain ⟨x, hx⟩ := ha.exists_amount?
    obtain ⟨y, hy⟩ := hb.exists_amount?
    refine ⟨x, y, hx, hy, s.comparesBy_amount?.lt hx hy, (s.decides_eq a b).congr ?_⟩
    rw [← (s.decides_eq a b).affirms_iff, affirms_eq_iff_amount? hx hy]
  · refine s.comparesBy_codes?.totallyOrdered codes ?_
    intro a b k l hk hl
    rw [hk, hl, Option.some.injEq]
  · intro a b ha hb
    obtain ⟨k, hk⟩ := codes a ha
    obtain ⟨l, hl⟩ := codes b hb
    refine ⟨⟨k, l, hk, hl, s.comparesBy_codes?.lt hk hl⟩, ?_⟩
    intro hkind
    refine (s.decides_eq a b).congr ?_
    rw [← (s.decides_eq a b).affirms_iff, affirms_eq_iff_codes? hk hl hkind,
      (s.comparesBy_codes?.lt hk hl).affirms_iff, (s.comparesBy_codes?.lt hl hk).affirms_iff]
    rw [not_lt, not_lt, and_comm]
    exact le_antisymm_iff
  · exact fun a b => (s.decides_eq a b).affirms_or_denies
  · refine ⟨fun a => (affirms_eq_iff a.2 a.2).mpr rfl, ?_, ?_⟩
    · intro a b hab
      exact (affirms_eq_iff b.2 a.2).mpr ((affirms_eq_iff a.2 b.2).mp hab).symm
    · intro a b c hab hbc
      have hessence := ((affirms_eq_iff a.2 b.2).mp hab).trans ((affirms_eq_iff b.2 c.2).mp hbc)
      exact (affirms_eq_iff a.2 c.2).mpr hessence

/-- No double lies between `2 ^ 53` and `2 ^ 53 + 2`, but an integer does, and it is not rounded: it
is greater than the double below it and not equal to the integer that is equal to that double. -/
theorem comparison_does_not_round :
    let small : Value := .int 9007199254740992
    let double : Value := .float (.finite false (9007199254740992 * Double.one))
    let large : Value := .int 9007199254740993
    small.IsNumber ∧ double.IsNumber ∧ large.IsNumber ∧ empty.Affirms .eq small double ∧
      empty.Affirms .lt double large ∧ empty.Denies .eq small large := by
  intro small double large
  have hsmall : small.IsNumber := ⟨rfl, nofun⟩
  have hdouble : double.IsNumber := ⟨rfl, nofun⟩
  have hlarge : large.IsNumber := ⟨rfl, nofun⟩
  have hsame : double.amount? = small.amount? := by
    have hunits : ((Double.signed false (9007199254740992 * Double.one) : Int) : ℚ) * Double.unit =
        (9007199254740992 : Int) := by
      rw [Double.signed, if_neg Bool.false_ne_true, Int.cast_natCast, Nat.cast_mul, mul_assoc,
        Double.one_mul_unit, mul_one]
      rfl
    show some (Extended.ofRat _) = _
    rw [hunits]
    rfl
  have hlt : Extended.ofRat (9007199254740992 : Int) < .ofRat (9007199254740993 : Int) :=
    Extended.ofRat_lt_ofRat.mpr (Int.cast_lt.mpr (by decide))
  have law := (comparisons_are_coherent empty).1.2
  refine ⟨hsmall, hdouble, hlarge, ?_, ?_, ?_⟩
  · obtain ⟨x, y, hx, hy, -, heq⟩ := law small double hsmall hdouble
    rw [hsame, hx] at hy
    exact heq.1 (Option.some.inj hy)
  · obtain ⟨x, y, hx, ⟨⟩, hless, -⟩ := law double large hdouble hlarge
    rw [hsame] at hx
    cases hx
    exact hless.1 hlt
  · obtain ⟨x, y, ⟨⟩, ⟨⟩, -, heq⟩ := law small large hsmall hlarge
    exact heq.2 hlt.ne

end Store

end Scriptlet
