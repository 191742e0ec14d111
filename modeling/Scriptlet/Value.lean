import Scriptlet.Number.Decimal
import Scriptlet.Number.Integer

/-!
# Values

A value is undefined, a primitive, or a reference to an object or array in the store. Functions
are objects.

A primitive sits in a box. Boxes matter only to a host that holds on to a value and asks whether
another is the very same one; evaluation puts all of its results into box zero, and copying a value
(`Value.detach`) takes it out of its box. Two values are the very same exactly when they are equal
as terms.
-/

namespace Scriptlet

open Number

/-- Refers to an object of the store. -/
structure ObjectId where
  index : Nat
  deriving DecidableEq, Repr

/-- Refers to an array of the store. -/
structure ArrayId where
  index : Nat
  deriving DecidableEq, Repr

/-- The scalar values. -/
inductive Primitive where
  | int (n : Int)
  | float (x : Double)
  | string (s : String)
  | char (c : Char)
  | bool (b : Bool)
  deriving DecidableEq, Repr

/-- What a host may put into a value of its own. -/
inductive Payload where
  | nothing
  | text (s : String)
  | flag (b : Bool)
  deriving DecidableEq, Repr

/-- A value. -/
inductive Value where
  | undefined
  | primitive (p : Primitive) (box : Nat)
  | object (id : ObjectId)
  | array (id : ArrayId)
  /-- A value that only the host knows: evaluation carries it around and never looks inside. -/
  | foreign (content : Payload) (box : Nat)
  deriving DecidableEq, Repr

namespace Value

/-- A new integer. -/
abbrev int (n : Int) : Value := primitive (.int n) 0

/-- A new float. -/
abbrev float (x : Double) : Value := primitive (.float x) 0

/-- A new string. -/
abbrev string (s : String) : Value := primitive (.string s) 0

/-- A new char. -/
abbrev char (c : Char) : Value := primitive (.char c) 0

/-- A new truth value. -/
abbrev bool (b : Bool) : Value := primitive (.bool b) 0

/-- A copy of a primitive; everything else is its own copy. -/
def detach : Value → Value
  | primitive p _ => primitive p 0
  | v => v

/-- What a condition makes of a value: undefined, false, zero and the empty string do not hold. -/
def truthy : Value → Bool
  | undefined => false
  | primitive (.int n) _ => n != 0
  | primitive (.float x) _ => !x.isZero
  | primitive (.string s) _ => !s.isEmpty
  | primitive (.char _) _ => true
  | primitive (.bool b) _ => b
  | _ => true

end Value

/-- The number in a value: an integer or a float. -/
inductive Numeral where
  | int (n : Int)
  | float (x : Double)
  deriving DecidableEq, Repr

/-- The number in a value, if it is one. -/
def Value.numeral? : Value → Option Numeral
  | .primitive (.int n) _ => some (.int n)
  | .primitive (.float x) _ => some (.float x)
  | _ => none

/-- The text in a string or char. -/
def Value.characters? : Value → Option String
  | .primitive (.string s) _ => some s
  | .primitive (.char c) _ => some c.toString
  | _ => none

/-! ## Order of numbers -/

/-- Where a number stands on the line: a whole number of units of `2 ^ -1074`, below all of them or
above. Numbers are compared by their places, so an integer and a float compare exactly. -/
structure Place where
  rank : Int
  units : Int
  deriving DecidableEq, Repr

/-- The place of a number; not a number has none. -/
def Numeral.place? : Numeral → Option Place
  | .int n => some ⟨0, n * Double.one⟩
  | .float .nan => none
  | .float (.infinite negative) => some ⟨if negative then -1 else 1, 0⟩
  | .float (.finite negative units) => some ⟨0, Double.signed negative units⟩

/-- Places from left to right. -/
def Place.lt (p q : Place) : Bool :=
  decide (p.rank < q.rank) || (p.rank == q.rank && decide (p.units < q.units))

/-- Is the one number less than the other? -/
def Numeral.lt (a b : Numeral) : Bool :=
  match a.place?, b.place? with
  | some p, some q => p.lt q
  | _, _ => false

/-- Are the two numbers equal? -/
def Numeral.eq (a b : Numeral) : Bool :=
  match a.place?, b.place? with
  | some p, some q => p == q
  | _, _ => false

/-! ## Equality of values -/

/-- Do two primitives have the same kind and content? -/
def Primitive.alike : Primitive → Primitive → Bool
  | .int m, .int n => m == n
  | .float x, .float y => Numeral.eq (.float x) (.float y)
  | .string s, .string t => s == t
  | .char c, .char d => c == d
  | .bool a, .bool b => a == b
  | _, _ => false

/-- Are two values alike to a host: primitives by kind and content, all else the very same? -/
def Value.alike : Value → Value → Bool
  | .primitive p _, .primitive q _ => p.alike q
  | v, w => v == w

/-- Are two values equal to a program? Numbers are compared as numbers, whatever their kind. -/
def Value.equal (v w : Value) : Bool :=
  match v.numeral?, w.numeral? with
  | some a, some b => a.eq b
  | _, _ => v.alike w

end Scriptlet
