import Scriptlet.Node.Operator
import Scriptlet.Number.Double

/-!
# Trees

A program is a tree of nodes, each with the line on which it starts. There are three families:
expressions have a value, declarations name an entity, and control statements steer execution.

One type holds them all, since instructions of any family may follow each other and since a tree
that is built by hand may hold a node where the grammar would not put it. `Node.unknown` stands for
a construct of some family that has no meaning yet.

* `Node.family` : the family of a node.
* `Node.kindName` : the name of its kind, for diagnostics.
* `Node.unlined` : the same tree with every line set to zero. Lines serve only the reader of a
  program text, so two programs with the same unlined tree are one program.
-/

namespace Scriptlet

/-- A parameter of a function. A rest parameter takes all further arguments. -/
structure Param where
  name : String
  isRest : Bool
  deriving DecidableEq, Repr

/-- The families of nodes. What belongs to none of them is not a node of a program at all. -/
inductive Family where
  | expression
  | declaration
  | control
  | stray
  deriving DecidableEq, Repr

/-- A node of a program tree. -/
inductive Node where
  | functionExpr (line : Nat) (params : List Param) (body : List Node) (result : Node)
      (name : String)
  | reassignment (line : Nat) (target value : Node)
  | moduleAccess (line : Nat) (module : Node) (member : String)
  | destructuring (line : Nat) (names : List String) (isConst : Bool) (source : Node)
  | objectAccess (line : Nat) (target : Node) (member : String)
  | binary (line : Nat) (operator : Operator) (left right : Node)
  | call (line : Nat) (callee : Node) (args : List Node)
  | identifier (line : Nat) (symbol : String)
  | object (line : Nat) (pairs : List (String × Node))
  | array (line : Nat) (elements : List Node)
  | string (line : Nat) (value : String)
  | integer (line : Nat) (value : Int)
  | float (line : Nat) (value : Number.Double)
  | char (line : Nat) (value : String)
  | bool (line : Nat) (value : Bool)
  | undefined (line : Nat)
  | functionDecl (line : Nat) (name : String) (params : List Param) (body : List Node)
      (result : Node) (isExported : Bool)
  | moduleDecl (line : Nat) (name : String) (body : List Node) (isExported : Bool)
  | variableDecl (line : Nat) (name : String) (isConst : Bool) (value : Node) (isExported : Bool)
  | conditional (line : Nat) (condition : Node) (body : List Node) (elseBody : Option (List Node))
  | unknown (line : Nat) (family : Family) (kind : String)

namespace Node

/-- The family of a node. -/
def family : Node → Family
  | functionExpr .. | reassignment .. | moduleAccess .. | destructuring .. | objectAccess ..
  | binary .. | call .. | identifier .. | object .. | array .. | string .. | integer ..
  | float .. | char .. | bool .. | undefined .. => .expression
  | functionDecl .. | moduleDecl .. | variableDecl .. => .declaration
  | conditional .. => .control
  | unknown _ family _ => family

/-- The name of a node's kind. -/
def kindName : Node → String
  | functionExpr .. => "FunctionExprNode"
  | reassignment .. => "ReassignmentNode"
  | moduleAccess .. => "ModuleAccessNode"
  | destructuring .. => "ObjectDestructuringNode"
  | objectAccess .. => "ObjectAccessNode"
  | binary .. => "BinaryExprNode"
  | call .. => "CallNode"
  | identifier .. => "IdentifierNode"
  | object .. => "LiteralObjectNode"
  | array .. => "LiteralArrayNode"
  | string .. => "StringNode"
  | integer .. => "IntegerNode"
  | float .. => "FloatNode"
  | char .. => "CharNode"
  | bool .. => "BoolNode"
  | undefined .. => "UndefinedNode"
  | functionDecl .. => "FunctionNode"
  | moduleDecl .. => "ModuleNode"
  | variableDecl .. => "VariableNode"
  | conditional .. => "IfNode"
  | unknown _ _ kind => kind

/-- Can the node stand left of an assignment? -/
def isTarget : Node → Bool
  | identifier .. | objectAccess .. => true
  | _ => false

/-- Can the node stand left of a path separator? -/
def isPath : Node → Bool
  | identifier .. | moduleAccess .. => true
  | _ => false

mutual

/-- The same tree with every line set to zero. -/
def unlined : Node → Node
  | functionExpr _ params body result name =>
    functionExpr 0 params (unlinedAll body) result.unlined name
  | reassignment _ target value => reassignment 0 target.unlined value.unlined
  | moduleAccess _ module member => moduleAccess 0 module.unlined member
  | destructuring _ names isConst source => destructuring 0 names isConst source.unlined
  | objectAccess _ target member => objectAccess 0 target.unlined member
  | binary _ operator left right => binary 0 operator left.unlined right.unlined
  | call _ callee args => call 0 callee.unlined (unlinedAll args)
  | identifier _ symbol => identifier 0 symbol
  | object _ pairs => object 0 (unlinedPairs pairs)
  | array _ elements => array 0 (unlinedAll elements)
  | string _ value => string 0 value
  | integer _ value => integer 0 value
  | float _ value => float 0 value
  | char _ value => char 0 value
  | bool _ value => bool 0 value
  | undefined _ => undefined 0
  | functionDecl _ name params body result isExported =>
    functionDecl 0 name params (unlinedAll body) result.unlined isExported
  | moduleDecl _ name body isExported => moduleDecl 0 name (unlinedAll body) isExported
  | variableDecl _ name isConst value isExported =>
    variableDecl 0 name isConst value.unlined isExported
  | conditional _ condition body elseBody =>
    conditional 0 condition.unlined (unlinedAll body) (unlinedElse elseBody)
  | unknown _ family kind => unknown 0 family kind

/-- The nodes of a list without their lines. -/
def unlinedAll : List Node → List Node
  | [] => []
  | node :: rest => node.unlined :: unlinedAll rest

/-- The values of an object literal without their lines. -/
def unlinedPairs : List (String × Node) → List (String × Node)
  | [] => []
  | (key, node) :: rest => (key, node.unlined) :: unlinedPairs rest

/-- The alternative of a conditional without its lines. -/
def unlinedElse : Option (List Node) → Option (List Node)
  | none => none
  | some body => some (unlinedAll body)

end

@[simp] theorem unlinedAll_eq_map (nodes : List Node) : unlinedAll nodes = nodes.map unlined := by
  induction nodes with
  | nil => rfl
  | cons node rest ih => simp [unlinedAll, ih]

@[simp] theorem unlinedPairs_eq_map (pairs : List (String × Node)) :
    unlinedPairs pairs = pairs.map fun pair => (pair.1, pair.2.unlined) := by
  induction pairs with
  | nil => rfl
  | cons pair rest ih => simp [unlinedPairs, ih]

/-- Dropping the lines does not change the family. -/
@[simp] theorem family_unlined (node : Node) : node.unlined.family = node.family := by
  cases node <;> simp [unlined, family]

end Node

end Scriptlet
