import Scriptlet.Store.Rendering

/-!
# What the binary operators do

* Arithmetic on two integers is exact. A quotient that is not whole, and anything with a float, is
  computed in doubles; an integer that has no double next to it is refused.
* A string and anything else can be joined with `+`.
* Order is defined between numbers and between texts, and by code points there.
* Membership asks for an index of an array or a property of an object.
-/

namespace Scriptlet

open Number

/-- A number as a double, unless it is too large. -/
def Numeral.double? : Numeral → Option Double
  | .int n => Double.ofInt? n
  | .float x => some x

/-- Is the number zero? -/
def Numeral.isZero : Numeral → Bool
  | .int n => n == 0
  | .float x => x.isZero

/-- The value of a number. -/
def Numeral.value : Numeral → Value
  | .int n => .int n
  | .float x => .float x

namespace Operator

/-- What an arithmetic operator makes of two integers, where that is an integer. -/
def onInts? : Operator → Int → Int → Option Int
  | add, a, b => some (a + b)
  | sub, a, b => some (a - b)
  | mul, a, b => some (a * b)
  | div, a, b => if Int.fmod a b = 0 then some (Int.fdiv a b) else none
  | mod, a, b => some (Int.fmod a b)
  | _, _, _ => none

/-- What an arithmetic operator makes of two doubles. -/
def onDoubles? : Operator → Double → Double → Option Double
  | add, x, y => some (x.add y)
  | sub, x, y => some (x.sub y)
  | mul, x, y => some (x.mul y)
  | div, x, y => some (x.div y)
  | mod, x, y => some (x.mod y)
  | _, _, _ => none

/-- What an arithmetic operator makes of two numbers in doubles, if both have one next to them. The
quotient of two integers is rounded once. -/
def rounded? (o : Operator) (a b : Numeral) : Option Double :=
  match o, a, b with
  | div, .int m, .int n => Double.ofIntQuotient? m n
  | o, a, b => do o.onDoubles? (← a.double?) (← b.double?)

/-- What an arithmetic operator makes of two numbers. -/
def onNumerals (o : Operator) (a b : Numeral) : Except Fault Numeral :=
  if o = div ∧ b.isZero then .error .divisionByZero
  else if o = mod ∧ b.isZero then .error .moduloByZero
  else
    let whole := match a, b with
      | .int m, .int n => o.onInts? m n
      | _, _ => none
    match whole with
    | some n => .ok (.int n)
    | none =>
      match o.rounded? a b with
      | some x => .ok (.float x)
      | none => .error (.outOfFloatRange o.sign)

/-- What a comparison makes of an order: `lt` and `eq` say how the operands stand. -/
def holds (o : Operator) (lt eq gt : Bool) : Bool :=
  match o with
  | .lt => lt
  | .gt => gt
  | .le => lt || eq
  | .ge => gt || eq
  | _ => false

/-- Is it one of the arithmetic operators? -/
def isArithmetic : Operator → Bool
  | add | sub | mul | div | mod => true
  | _ => false

/-- Is it one of the comparisons? -/
def isComparison : Operator → Bool
  | lt | gt | le | ge => true
  | _ => false

end Operator

namespace Store

/-- The fault of an operator that does not apply to the kinds of its operands. -/
def mismatch (s : Store) (o : Operator) (a b : Value) : Fault :=
  .operandMismatch o.sign (s.typeName a) (s.typeName b)

/-- Is the value a string? -/
def isString : Value → Bool
  | .primitive (.string _) _ => true
  | _ => false

/-- An arithmetic operator on two values. -/
def arithmetic (s : Store) (limit : Nat) (o : Operator) (a b : Value) : Except Fault Value :=
  match a.numeral?, b.numeral? with
  | some m, some n => return (← o.onNumerals m n).value
  | _, _ =>
    if o = .add ∧ (isString a ∨ isString b) then do
      let left ← s.format limit a
      let right ← s.format limit b
      return .string (left ++ right)
    else .error (s.mismatch o a b)

/-- A comparison of two values. -/
def compare (s : Store) (o : Operator) (a b : Value) : Except Fault Value :=
  match a.numeral?, b.numeral?, a.characters?, b.characters? with
  | some m, some n, _, _ => .ok (.bool (o.holds (m.lt n) (m.eq n) (n.lt m)))
  | _, _, some t, some u =>
    .ok (.bool (o.holds (decide (t < u)) (t == u) (decide (u < t))))
  | _, _, _, _ => .error (s.mismatch o a b)

/-- Is a key among the indices of an array or the properties of an object? -/
def membership (s : Store) (key container : Value) : Except Fault Value :=
  match container, key with
  | .array id, .primitive (.int n) _ =>
    .ok (.bool (decide (0 ≤ n) && decide (n < (s.elements id).size)))
  | .object id, key =>
    match key.characters? with
    | some name => .ok (.bool (s.hasProperty id name))
    | none => .error (s.mismatch .isIn key container)
  | _, _ => .error (s.mismatch .isIn key container)

/-- A binary operator on two values. Telling instances apart is not among them, as its right side
may be a name without a value. -/
def operate (s : Store) (limit : Nat) (o : Operator) (a b : Value) : Except Fault Value :=
  if o.isArithmetic then s.arithmetic limit o a b
  else if o.isComparison then s.compare o a b
  else
    match o with
    | .isIn => s.membership a b
    | .eq => .ok (.bool (a.equal b))
    | .ne => .ok (.bool (!a.equal b))
    | o => .error (.unsupportedOperator o.sign)

/-- Is a value of the kind that a built-in name stands for? Functions are objects too. -/
def isOfType (s : Store) (v : Value) (name : String) : Bool :=
  match name, v with
  | "Object", .object _ => true
  | name, v => s.typeName v == name

/-- Does a value fall back on an object? -/
def isInstance (s : Store) (v prototype : Value) : Except Fault Bool :=
  match prototype with
  | .object p =>
    match v with
    | .object id => .ok (s.inherits id p)
    | _ => .ok false
  | _ => .error (.badInstanceOf (s.typeName prototype))

/-- The value of a member. Objects have their properties, arrays and strings a length. -/
def readMember (s : Store) (limit : Nat) (target : Value) (name : String) :
    Except Fault Value :=
  match target with
  | .object id => .ok (s.getProperty id name)
  | .array id => .ok (if name = "length" then .int (s.elements id).size else .undefined)
  | .primitive (.string text) _ =>
    if name = "length" then .ok (.int text.length)
    else .error (.unreadableMember name text)
  | v => do .error (.unreadableMember name (← s.format limit v))

/-! ## Modules -/

/-- An exported member of a module's own scope. -/
def member (s : Store) (m : Module) (name : String) : Except Fault Entity :=
  match (s.entries m.scope).get? name with
  | none => .error (.unresolved (m.name ++ "::" ++ name))
  | some e => if s.isExported e then .ok e else .error (.notExported name m.name)

/-- The module among entities. -/
def asModule (e : Entity) (name : String) : Except Fault Module :=
  match e with
  | .mod m => .ok m
  | _ => .error (.notAModule name)

/-- The module that a path names, as seen from a scope. Each segment is one level of nesting. -/
def pathModule (s : Store) (id : ScopeId) : Nat → Node → Except Fault Module
  | 0, _ => .error .overflow
  | _ + 1, .identifier _ name =>
    match s.resolve? id name with
    | none => .error (.unresolved name)
    | some e => asModule e name
  | limit + 1, .moduleAccess _ outer name => do
    let m ← s.pathModule id limit outer
    asModule (← s.member m name) name
  | _ + 1, node => .error (.unsupportedPath node.kindName)

end Store

end Scriptlet
