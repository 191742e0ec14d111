import Scriptlet.Number.Double
import Scriptlet.Text.DecimalDigit

/-!
# Doubles as decimal text

## Writing

The text of a double has the fewest significant digits that read back as the same double, and of
the texts of that length the one nearest to it.

`neighbours` gives the half-way points to the next doubles; exactly the decimals between them read
back. For one digit, two digits and so on, `shortest` tries the two multiples of a power of ten
around the value and stops at the first that lies between. Seventeen digits always suffice.

`Decimal.layout` then decides how the digits are set: with a plain point from `0.0001` up to sixteen
digits before the point, with an exponent otherwise.

## Reading

`Double.ofText?` takes an optional sign and either a name (`inf`, `nan`) or digits with an optional
fraction and exponent. The digits are those of any script. Exponents far out of range are cut off
before any power of ten is computed.
-/

namespace Scriptlet.Number

/-- A positive decimal `0.d₁d₂… · 10 ^ point`, where `d₁ ≠ 0`. -/
structure Decimal where
  digits : List Char
  point : Int
  deriving Repr

namespace Decimal

/-- At most this many zeros stand between the point and the first digit of a double. -/
def leastPoint : Nat := 324

/-- The position of the decimal point of a magnitude below one: counts the zeros after the point,
at most `bound` of them. -/
def zerosAfterPoint : Nat → Nat → Nat
  | 0, _ => 0
  | bound + 1, units =>
    if Double.one ≤ 10 * units then 0 else zerosAfterPoint bound (10 * units) + 1

/-- The power of ten above a magnitude: `10 ^ (p - 1) ≤ units / one < 10 ^ p`. -/
def pointOf (units : Nat) : Int :=
  if Double.one ≤ units then (Nat.toDigits 10 (units / Double.one)).length
  else -(zerosAfterPoint leastPoint units : Int)

/-- Four times the half-way points to the neighbouring doubles, in units. The gap below a power of
two is half the gap above it. -/
def neighbours (units : Nat) : Nat × Nat :=
  let step := Double.spacing units
  let below := if units = Nat.pow 2 units.log2 ∧ 1 < step then step else 2 * step
  (4 * units - below, 4 * units + 2 * step)

/-- Does `count · 10 ^ place` lie between the half-way points around `units`? The points themselves
count when the double's last bit is zero, since a tie is then rounded to it. -/
def readsBack (units : Nat) (place : Int) (count : Nat) : Bool :=
  let (low, high) := neighbours units
  let value := 4 * count * Double.one * Nat.pow 10 place.toNat
  let scale := Nat.pow 10 (-place).toNat
  if units / Double.spacing units % 2 = 0 then
    decide (low * scale ≤ value) && decide (value ≤ high * scale)
  else decide (low * scale < value) && decide (value < high * scale)

/-- The multiple of `10 ^ place` that reads back as the double, if there is one: of the two around
it the nearer, of two equally near ones the even. -/
def candidate? (units : Nat) (place : Int) : Option Nat :=
  let num := units * Nat.pow 10 (-place).toNat
  let den := Double.one * Nat.pow 10 place.toNat
  let near := Double.roundDiv num den
  let far := if near * den ≤ num then near + 1 else near - 1
  if readsBack units place near then some near
  else if readsBack units place far then some far
  else none

/-- Digits without the zeros at their end. -/
def trim (row : List Char) : List Char := (row.reverse.dropWhile (· == '0')).reverse

/-- Tries `n`, `n + 1`, … significant digits, `tries` lengths in all. -/
def search (units : Nat) (point : Int) : Nat → Nat → Decimal
  | 0, _ => ⟨[], point⟩
  | tries + 1, n =>
    match candidate? units (point - n) with
    | some count =>
      let row := Nat.toDigits 10 count
      ⟨trim row, point + row.length - n⟩
    | none => search units point tries (n + 1)

/-- The shortest decimal that reads back as a double of positive magnitude `units`. -/
def shortest (units : Nat) : Decimal := search units (pointOf units) 17 1

/-- Numbers below `10 ^ plainBelow` are written without an exponent. -/
def plainBelow : Int := 16

/-- Numbers from `10 ^ plainFrom` on are written without an exponent. -/
def plainFrom : Int := -4

/-- An exponent: its sign is always written, and at least two digits. -/
def exponentText (e : Int) : List Char :=
  let row := Nat.toDigits 10 e.natAbs
  'e' :: (if e < 0 then '-' else '+') :: (if row.length < 2 then '0' :: row else row)

/-- The text of a decimal. -/
def layout (d : Decimal) : List Char :=
  let e := d.point - 1
  if plainFrom ≤ e ∧ e < plainBelow then
    if d.point ≤ 0 then '0' :: '.' :: (List.replicate (-d.point).toNat '0' ++ d.digits)
    else
      let n := d.point.toNat
      let whole := d.digits.take n
      let padded := whole ++ List.replicate (n - whole.length) '0'
      let fraction := d.digits.drop n
      padded ++ '.' :: (if fraction.isEmpty then ['0'] else fraction)
  else
    match d.digits with
    | [] => []
    | first :: [] => first :: exponentText e
    | first :: rest => first :: '.' :: (rest ++ exponentText e)

end Decimal

namespace Double

/-- The decimal text of a double. -/
def text : Double → String
  | nan => "nan"
  | infinite s => if s then "-inf" else "inf"
  | finite s units =>
    let body := if units = 0 then ['0', '.', '0'] else (Decimal.shortest units).layout
    String.ofList (if s then '-' :: body else body)

/-- Beyond this many places before or after the point every decimal is infinite or zero. -/
def farPlaces : Int := 400

/-- The double nearest to `count · 10 ^ place`, where `count` has `length` digits. -/
def ofDecimal (negative : Bool) (count length : Nat) (place : Int) : Double :=
  if count = 0 then finite negative 0
  else if farPlaces < place + length then infinite negative
  else if place + length < -farPlaces then finite negative 0
  else ofRatio negative (count * one * Nat.pow 10 place.toNat) (Nat.pow 10 (-place).toNat)

open Text.DecimalDigit

/-- The exponent part of a number: empty, or `e`, an optional sign and digits. -/
def readExponent? : List Char → Option Int
  | [] => some 0
  | mark :: rest =>
    if mark = 'e' ∨ mark = 'E' then
      let (negative, row) := match rest with
        | '-' :: r => (true, r)
        | '+' :: r => (false, r)
        | r => (false, r)
      if row.isEmpty || !row.all isDigit then none
      else some (if negative then -(number row : Int) else number row)
    else none

/-- The digits of a number: a whole part, an optional fraction and an optional exponent. -/
def readDigits? (negative : Bool) (cs : List Char) : Option Double :=
  let whole := cs.takeWhile isDigit
  let rest := cs.dropWhile isDigit
  let (fraction, tail) := match rest with
    | '.' :: r => (r.takeWhile isDigit, r.dropWhile isDigit)
    | r => ([], r)
  let row := whole ++ fraction
  if row.isEmpty then none
  else
    (readExponent? tail).map fun e =>
      let count := number row
      ofDecimal negative count (Nat.toDigits 10 count).length (e - fraction.length)

/-- The double that a text spells. -/
def ofText? (text : String) : Option Double :=
  let (negative, body) := match text.toList with
    | '-' :: r => (true, r)
    | '+' :: r => (false, r)
    | r => (false, r)
  if body = ['i', 'n', 'f'] then some (infinite negative)
  else if body = ['n', 'a', 'n'] then some nan
  else readDigits? negative body

end Double

end Scriptlet.Number
