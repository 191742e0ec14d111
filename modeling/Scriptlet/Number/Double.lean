/-!
# Doubles

A floating-point number of 53 significant bits, as a whole number of the smallest positive one.
Every finite double is a multiple of `2 ^ -1074`, so a sign and a natural number of such *units*
say which double it is, and sums, remainders and comparisons are plain integer arithmetic.

## How it works

An operation computes its exact result as a quotient of natural numbers of units and hands it to
`roundUnits`, the one place where anything is rounded: to the nearest double, a tie going to the
one whose last bit is zero. Results of `2 ^ 1024` and more are infinite.

Zero keeps its sign, as the sign of a quotient or product with zero depends on it.
-/

namespace Scriptlet.Number

/-- A double: not a number, an infinity, or a signed whole number of units of `2 ^ -1074`. -/
inductive Double where
  | nan
  | infinite (negative : Bool)
  | finite (negative : Bool) (units : Nat)
  deriving DecidableEq, Repr, Inhabited

namespace Double

/-- The number of units in one. -/
def one : Nat := Nat.pow 2 1074

/-- Magnitudes from here on are out of range: `2 ^ 1024` in units. -/
def outOfRange : Nat := Nat.pow 2 2098

/-- The quotient of two natural numbers, rounded to the nearest one, a tie to the even one. -/
def roundDiv (num den : Nat) : Nat :=
  let q := num / den
  let twice := 2 * (num % den)
  if twice < den ∨ twice = den ∧ q % 2 = 0 then q else q + 1

/-- The distance between a double of magnitude `units` and the next larger one: 53 bits are kept,
and no double is finer than one unit. -/
def spacing (units : Nat) : Nat := Nat.pow 2 (units.log2 - 52)

/-- The multiple of the spacing that is nearest to `num / den` units. -/
def roundUnits (num den : Nat) : Nat :=
  let step := spacing (num / den)
  roundDiv num (den * step) * step

/-- The double nearest to `num / den` units. -/
def ofRatio (negative : Bool) (num den : Nat) : Double :=
  let units := roundUnits num den
  if units < outOfRange then finite negative units else infinite negative

/-- The double nearest to an integer, unless that is infinite. -/
def ofInt? (n : Int) : Option Double :=
  match ofRatio (decide (n < 0)) (n.natAbs * one) 1 with
  | infinite _ => none
  | x => some x

/-- The double nearest to the quotient of two integers, unless that is infinite. The divisor is
not zero. -/
def ofIntQuotient? (a b : Int) : Option Double :=
  match ofRatio (decide (a < 0) != decide (b < 0)) (a.natAbs * one) b.natAbs with
  | infinite _ => none
  | x => some x

/-- A signed number of units. -/
def signed (negative : Bool) (units : Nat) : Int :=
  if negative then -(units : Int) else units

/-- Is the double zero, of either sign? -/
def isZero : Double → Bool
  | finite _ 0 => true
  | _ => false

/-- The double with the other sign. -/
def neg : Double → Double
  | nan => nan
  | infinite s => infinite (!s)
  | finite s u => finite (!s) u

/-- The sum. Two zeros add to a negative zero only if both are negative; other sums that vanish are
positive zeros. -/
def add : Double → Double → Double
  | nan, _ => nan
  | _, nan => nan
  | infinite s, infinite t => if s = t then infinite s else nan
  | infinite s, finite _ _ => infinite s
  | finite _ _, infinite t => infinite t
  | finite s u, finite t v =>
    let total := signed s u + signed t v
    if total = 0 then finite (s && t) 0 else ofRatio (decide (total < 0)) total.natAbs 1

/-- The difference. -/
def sub (x y : Double) : Double := add x (neg y)

/-- The product. -/
def mul : Double → Double → Double
  | nan, _ => nan
  | _, nan => nan
  | infinite s, infinite t => infinite (s != t)
  | infinite s, finite t v => if v = 0 then nan else infinite (s != t)
  | finite s u, infinite t => if u = 0 then nan else infinite (s != t)
  | finite s u, finite t v => ofRatio (s != t) (u * v) one

/-- The quotient. -/
def div : Double → Double → Double
  | nan, _ => nan
  | _, nan => nan
  | infinite _, infinite _ => nan
  | infinite s, finite t _ => infinite (s != t)
  | finite s _, infinite t => finite (s != t) 0
  | finite s u, finite t v =>
    if v = 0 then (if u = 0 then nan else infinite (s != t)) else ofRatio (s != t) (u * one) v

/-- The remainder with the sign of the divisor. The remainder of the magnitudes is exact; when its
sign is not the divisor's, the divisor is added, which rounds. -/
def mod : Double → Double → Double
  | nan, _ => nan
  | _, nan => nan
  | infinite _, _ => nan
  | finite s u, infinite t =>
    if u = 0 then finite t 0 else if s = t then finite s u else infinite t
  | finite s u, finite t v =>
    if v = 0 then nan
    else
      let r := u % v
      if r = 0 then finite t 0 else if s = t then finite s r else add (finite s r) (finite t v)

end Double

end Scriptlet.Number
