/-!
# Binary operators

The operators that stand between two expressions, how they are written, and how tightly they bind.
A tree built by hand may name an operator that the language does not have (`Operator.other`).
-/

namespace Scriptlet

/-- The binary operators. -/
inductive Operator where
  | mul
  | div
  | mod
  | add
  | sub
  | lt
  | gt
  | le
  | ge
  | instanceOf
  | isIn
  | eq
  | ne
  | other (sign : String)
  deriving DecidableEq, Repr

namespace Operator

/-- The operators of the language, those that bind tightest first. -/
def all : List Operator := [mul, div, mod, add, sub, lt, gt, le, ge, instanceOf, isIn, eq, ne]

/-- How an operator is written. -/
def sign : Operator → String
  | mul => "*"
  | div => "/"
  | mod => "%"
  | add => "+"
  | sub => "-"
  | lt => "<"
  | gt => ">"
  | le => "<="
  | ge => ">="
  | instanceOf => "instanceof"
  | isIn => "in"
  | eq => "=="
  | ne => "!="
  | other sign => sign

/-- The operator of the language that is written so. -/
def ofSign? (sign : String) : Option Operator := all.find? fun o => o.sign == sign

/-- How tightly an operator binds: the higher, the tighter. -/
def precedence : Operator → Nat
  | mul | div | mod => 4
  | add | sub => 3
  | lt | gt | le | ge | instanceOf | isIn => 2
  | eq | ne => 1
  | other _ => 0

/-- The operator that is written so, be it one of the language or not. -/
def ofSign (sign : String) : Operator := (ofSign? sign).getD (other sign)

end Operator

end Scriptlet
