import Scriptlet.Machine.Call
import Scriptlet.Machine.Native

/-!
# Evaluation

* `Eval.value` evaluates an expression in a scope.
* `Eval.entity` evaluates a declaration to the entity that it declares.
* `Eval.control` executes a control statement.
* `Eval.instruction` executes an instruction of any family.
* `Eval.invoke` calls a function with given arguments.

## How it works

As with the grammar, a construct is a plain definition over the evaluators of its parts, and the
five evaluators tie the knot at the end. Operands, arguments, elements and entries are evaluated
from left to right.

## Why it terminates

A program need not. The five evaluators count down a nesting depth, the limit on how deep calls and
trees may be nested; at zero they fail with `Fault.overflow`. A program without loops can only run
for ever by nesting calls.
-/

namespace Scriptlet.Eval

/-- The evaluator of the parts of a construct in a given scope. -/
abbrev Evaluator := Node → ScopeId → Eval Value

/-! ## Expressions -/

/-- Assigns to a member of an object. The object is evaluated first, and a property that may not be
written is refused before the value is evaluated. -/
def assignMember (eval : Evaluator) (limit : Nat) (owner : Node) (member : String) (value : Node)
    (scope : ScopeId) : Eval Value := do
  match ← eval owner scope with
  | .object id =>
    let existing := (← ask (·.properties id)).get? member
    if existing.any (!·.isWriteable) then throw (.readOnly member)
    let v ← eval value scope
    let property := match existing with
      | some p => { p with value := v }
      | none => { value := v }
    change (·.setProperty id member property)
    return v
  | target => throw (.unsettableMember member (← query (·.format limit target)))

/-- Assigns to a variable. The name is resolved before the value is evaluated. -/
def assignName (eval : Evaluator) (name : String) (value : Node) (scope : ScopeId) :
    Eval Value := do
  match ← resolve scope name with
  | .var id =>
    let v ← eval value scope
    assign id v
    return v
  | _ => throw (.notAVariable name)

/-- Assigns to whatever stands on the left. -/
def reassignment (eval : Evaluator) (limit : Nat) (target value : Node) (scope : ScopeId) :
    Eval Value :=
  match target with
  | .objectAccess _ owner member => assignMember eval limit owner member value scope
  | .identifier _ name => assignName eval name value scope
  | other => throw (.unsupportedTarget other.kindName)

/-- Declares variables for properties of an object; gives the object. -/
def destructuring (eval : Evaluator) (limit : Nat) (names : List String) (isConst : Bool)
    (source : Node) (scope : ScopeId) : Eval Value := do
  let v ← eval source scope
  match v with
  | .object id =>
    declareAll isConst scope (fun s name => (s.getProperty id name).detach) names
    return v
  | _ => throw (.notDestructurable (← query (·.format limit v)))

/-- Is the node the bare name of a kind of values that the program does not use for itself? -/
def typeTest? (s : Store) (node : Node) (scope : ScopeId) : Option String :=
  match node with
  | .identifier _ name =>
    if Store.typeNames.contains name && (s.resolve? scope name).isNone then some name else none
  | _ => none

/-- Tells whether a value is of a kind or falls back on an object. -/
def instanceOf (eval : Evaluator) (v : Value) (type : Node) (scope : ScopeId) : Eval Value := do
  match ← ask (typeTest? · type scope) with
  | some name => return .bool (← ask (·.isOfType v name))
  | none =>
    let prototype ← eval type scope
    return .bool (← query (·.isInstance v prototype))

/-- A binary operator. -/
def binary (eval : Evaluator) (limit : Nat) (o : Operator) (left right : Node)
    (scope : ScopeId) : Eval Value := do
  let a ← eval left scope
  if o = .instanceOf then instanceOf eval a right scope
  else
    let b ← eval right scope
    query (·.operate limit o a b)

/-- The function that a call calls: by name, or the value of any other expression. -/
def callee (eval : Evaluator) (limit : Nat) (node : Node) (scope : ScopeId) : Eval ObjectId :=
  match node with
  | .identifier _ name => query (·.calleeOf scope name)
  | node => do
    let v ← eval node scope
    query (·.asFunction limit v)

/-- A call. A function written in the language refuses a wrong number of arguments before any of
them is evaluated. -/
def call (eval : Evaluator) (invoke : ObjectId → List Value → Eval Value) (limit : Nat)
    (function : Node) (args : List Node) (scope : ScopeId) : Eval Value := do
  let id ← callee eval limit function scope
  if ← ask fun s => (s.function? id).any (·.isDefined) then
    query (·.checkArity id args.length)
  let values ← args.mapM (eval · scope)
  invoke id values

/-- The entries of an object literal. -/
def entries (eval : Evaluator) (scope : ScopeId) :
    List (String × Node) → Table Property → Eval (Table Property)
  | [], found => return found
  | (key, node) :: rest, found => do
    let v ← eval node scope
    entries eval scope rest (found.put key { value := v })

/-- An expression, from the evaluator of its parts. -/
def valueOf (eval : Evaluator) (invoke : ObjectId → List Value → Eval Value) (limit : Nat)
    (node : Node) (scope : ScopeId) : Eval Value :=
  match node with
  | .functionExpr _ params body result name => do
    return .object (← newClosure name false ⟨scope, params, body, result⟩)
  | .reassignment _ target value => reassignment eval limit target value scope
  | .moduleAccess _ path name =>
    query fun s => do s.entityValue (← s.member (← s.pathModule scope limit path) name) name
  | .destructuring _ names isConst source => destructuring eval limit names isConst source scope
  | .objectAccess _ target member => do
    let v ← eval target scope
    query (·.readMember limit v member)
  | .binary _ o left right => binary eval limit o left right scope
  | .call _ function args => call eval invoke limit function args scope
  | .identifier _ name => do
    let e ← resolve scope name
    query (·.entityValue e name)
  | .object _ pairs => do newObject none (← entries eval scope pairs [])
  | .array _ elements => do newArray (← elements.mapM (eval · scope))
  | .string _ text => return .string text
  | .integer _ n => return .int n
  | .float _ x => return .float x
  | .char _ text =>
    match text.toList with
    | [c] => return .char c
    | _ => throw (.notOneCharacter text)
  | .bool _ b => return .bool b
  | .undefined _ => return .undefined
  | node => throw (.unsupportedNode node.kindName)

/-! ## Declarations and statements -/

/-- Evaluates declarations and declares what comes of them, in order. -/
def declarations (entity : Node → ScopeId → Eval Entity) (scope : ScopeId) : List Node → Eval Unit
  | [] => return ()
  | node :: rest => do
    declare (← entity node scope) scope
    declarations entity scope rest

/-- A declaration, from the evaluators of its parts. -/
def entityOf (eval : Evaluator) (entity : Node → ScopeId → Eval Entity) (node : Node)
    (scope : ScopeId) : Eval Entity :=
  match node with
  | .functionDecl _ name params body result isExported => do
    return .fn (← newClosure name isExported ⟨scope, params, body, result⟩)
  | .moduleDecl _ name body isExported => do
    let own ← newScope name (some scope)
    declarations entity own body
    return .mod ⟨name, own, isExported⟩
  | .variableDecl _ name isConst value isExported => do
    newVariable name isConst (← eval value scope) isExported
  | node => throw (.unsupportedNode node.kindName)

/-- Executes instructions in order. -/
def instructions (instruction : Node → ScopeId → Eval Unit) (scope : ScopeId) :
    List Node → Eval Unit
  | [] => return ()
  | node :: rest => do
    instruction node scope
    instructions instruction scope rest

/-- A control statement, from the evaluators of its parts. A branch has a scope of its own.
Statements that have no meaning yet are passed over. -/
def controlOf (eval : Evaluator) (instruction : Node → ScopeId → Eval Unit) (node : Node)
    (scope : ScopeId) : Eval Unit :=
  match node with
  | .conditional _ condition body elseBody => do
    let v ← eval condition scope
    match if v.truthy then some body else elseBody with
    | none => return ()
    | some branch =>
      let own ← newScope (← ask (·.owner scope)) (some scope)
      instructions instruction own branch
  | node => note (.ignored node.kindName)

/-- An instruction, from the evaluators of the families. -/
def instructionOf (eval : Evaluator) (entity : Node → ScopeId → Eval Entity)
    (control : Node → ScopeId → Eval Unit) (node : Node) (scope : ScopeId) : Eval Unit :=
  match node.family with
  | .expression => do
    let _ ← eval node scope
  | .control => control node scope
  | .declaration => do
    let e ← entity node scope
    declare e scope
    note (.declared (← ask (·.entityName e)) (← ask (·.owner scope)))
  | .stray => throw (.unsupportedNode node.kindName)

/-- A call of a function written in the language, from the evaluators of its parts. -/
def callClosure (eval : Evaluator) (instruction : Node → ScopeId → Eval Unit) (name : String)
    (c : Closure) (args : List Value) : Eval Value := do
  let scope ← bindArguments name c args
  instructions instruction scope c.body
  checkEscape name c scope
  match c.result with
  | .undefined _ => return .undefined
  | result => eval result scope

/-- A call, from the evaluators of its parts. -/
def invokeOf (eval : Evaluator) (instruction : Node → ScopeId → Eval Unit)
    (invoke : ObjectId → List Value → Eval Value) (limit : Nat) (id : ObjectId)
    (args : List Value) : Eval Value := do
  query (·.checkArity id args.length)
  match ← ask (·.function? id) with
  | none => return .undefined
  | some f =>
    note (.called f.name args.length)
    match f.callable with
    | .native action _ => action.run invoke limit args
    | .closure c => callClosure eval instruction f.name c args
    | .hollow => return .undefined

/-! ## Tying the knot -/

mutual

/-- Evaluates an expression. -/
def value : Nat → Node → ScopeId → Eval Value
  | 0, _, _ => throw .overflow
  | depth + 1, node, scope => valueOf (value depth) (invoke depth) depth node scope

/-- Evaluates a declaration. -/
def entity : Nat → Node → ScopeId → Eval Entity
  | 0, _, _ => throw .overflow
  | depth + 1, node, scope => entityOf (value depth) (entity depth) node scope

/-- Executes a control statement. -/
def control : Nat → Node → ScopeId → Eval Unit
  | 0, _, _ => throw .overflow
  | depth + 1, node, scope => controlOf (value depth) (instruction depth) node scope

/-- Executes an instruction. -/
def instruction : Nat → Node → ScopeId → Eval Unit
  | 0, _, _ => throw .overflow
  | depth + 1, node, scope => instructionOf (value depth) (entity depth) (control depth) node scope

/-- Calls a function. -/
def invoke : Nat → ObjectId → List Value → Eval Value
  | 0, _, _ => throw .overflow
  | depth + 1, id, args => invokeOf (value depth) (instruction depth) (invoke depth) depth id args

end

end Scriptlet.Eval
