import Scriptlet.Node
import Scriptlet.Number.Decimal
import Scriptlet.Token.Stream

/-!
# The grammar

Programs are read top down: every construct has a reader that takes its tokens from the stream and
gives its node.

## How it works

A construct that does not contain itself is a plain definition; the readers of its parts are
arguments where the parts may contain it again. The seven constructs that do contain themselves
(expression, operand chain, operand, primary, instruction, conditional, declaration) are defined
together at the end and tie the knot.

Binary operators are read by climbing: an operand chain of precedence `m` takes every operator that
binds at least as tightly as `m`, and the right operand of each takes only what binds tighter.

## Why it terminates

The seven readers count down a nesting depth, which is also the limit on how deep a program may be
nested; at zero they fail with `Fault.overflow`. Lists of any length are read in loops that are
bounded by the number of tokens left.
-/

namespace Scriptlet.Grammar

open Token.Pattern Reader

/-! ## Literals -/

/-- The integer that a token spells. -/
def integerOf (text : String) : Reader Int :=
  let digits := text.toList
  match Number.Integer.read? digits with
  | some n => return n
  | none => throw (.digitsFromText digits.length)

/-- The double that a token spells. -/
def doubleOf (text : String) : Number.Double := (Number.Double.ofText? text).getD .nan

/-! ## Parts of functions -/

/-- One parameter; `found` are those before it. A rest parameter has to be followed by the closing
parenthesis. -/
def param (found : List Param) : Reader Param := do
  let isRest ← skips (op "...")
  let t ← expectAs (any .name) (.described "parameter name")
  if found.any (·.name == t.text) then throw (.misread (.duplicateParameter t.text) t.position)
  if isRest then
    unless ← sees (punct ")") do fail .restNotLast
  separator (punct ")")
  return ⟨t.text, isRest⟩

/-- The parameters of a function, in parentheses. -/
def params : Reader (List Param) := do
  let _ ← expect (punct "(")
  listUntil (punct ")") param

/-- The arguments of a call, in parentheses. -/
def args (expression : Reader Node) : Reader (List Node) := do
  let _ ← expect (punct "(")
  commaList (punct ")") expression

/-- A return statement: the value returned, which may be left out. -/
def returnStatement (expression : Reader Node) : Reader Node := do
  let _ ← expect (keyword "return")
  let value ←
    if ← (sees (punct "\x7d") <||> sees (punct ";")) then pure (.undefined 0) else expression
  let _ ← accept (punct ";")
  return value

/-- The instructions of a function body up to its closing brace, and the value returned, which is
undefined unless a return statement comes last. `bound` has a token for each instruction. -/
def bodyUntilBrace (expression instruction : Reader Node) (bound : List Token)
    (found : List Node) : Reader (List Node × Node) := do
  if ← skips (punct "\x7d") then return (found.reverse, .undefined 0)
  else if ← sees (keyword "return") then
    let value ← returnStatement expression
    unless ← skips (punct "\x7d") do fail .returnNotLast
    return (found.reverse, value)
  else
    let node ← instruction
    match bound with
    | [] => throw .overflow
    | _ :: bound => bodyUntilBrace expression instruction bound (node :: found)

/-- The body of a function: an equals sign and the value returned, or instructions in braces. -/
def functionBody (expression instruction : Reader Node) : Reader (List Node × Node) := do
  if ← skips (op "=") then return ([], ← expression)
  else
    let _ ← expectAs (punct "\x7b") (.described "function body")
    bodyUntilBrace expression instruction (← pending) []

/-- A function as an expression. -/
def functionExpr (expression instruction : Reader Node) : Reader Node := do
  let t ← expect (keyword "fn")
  let name ← accept (any .name)
  let ps ← params
  let (body, result) ← functionBody expression instruction
  return .functionExpr t.line ps body result ((name.map (·.text)).getD "anonymous")

/-! ## Declarations -/

/-- A function declaration. -/
def functionDecl (expression instruction : Reader Node) (isExported : Bool) : Reader Node := do
  let t ← expect (keyword "fn")
  let name ← expectAs (any .name) (.described "function name")
  let ps ← params
  let (body, result) ← functionBody expression instruction
  return .functionDecl t.line name.text ps body result isExported

/-- A variable declaration. -/
def variableDecl (expression : Reader Node) (isExported : Bool) : Reader Node := do
  let t ← advance
  let name ← expectAs (any .name) (.described "variable name")
  let _ ← expect (op "=")
  let value ← expression
  return .variableDecl t.line name.text (t.text == "const") value isExported

/-- A declaration of variables for the properties of an object. -/
def destructuring (expression : Reader Node) : Reader Node := do
  let t ← advance
  let _ ← expect (punct "\x7b")
  let names ← commaList (punct "\x7d") do
    return (← expectAs (any .name) (.described "property name")).text
  let _ ← expect (op "=")
  let source ← expression
  return .destructuring t.line names (t.text == "const") source

/-- A declaration and the semicolon that may follow it. -/
def terminated (declaration : Reader Node) : Reader Node := do
  let node ← declaration
  let _ ← accept (punct ";")
  return node

/-- A module with its declarations. -/
def moduleDecl (declaration : Reader Node) (isExported : Bool) : Reader Node := do
  let t ← expect (keyword "module")
  let name ← expectAs (any .name) (.described "module name")
  let _ ← expect (punct "\x7b")
  let body ← listUntil (punct "\x7d") fun _ => do
    if ← finished then fail (.unterminatedModule name.text)
    terminated declaration
  return .moduleDecl t.line name.text body isExported

/-! ## Statements -/

/-- Instructions in braces. -/
def block (instruction : Reader Node) : Reader (List Node) := do
  let _ ← expectAs (punct "\x7b") (.described "block")
  listUntil (punct "\x7d") fun _ => do
    if ← finished then fail .unterminatedBlock
    instruction

/-- A condition, a block, and perhaps an alternative: a block or another conditional. -/
def conditionalOf (expression instruction conditional : Reader Node) : Reader Node := do
  let t ← expect (keyword "if")
  let condition ← expression
  let body ← block instruction
  if ← skips (keyword "else") then
    if ← sees (keyword "if") then
      return .conditional t.line condition body (some [← conditional])
    else
      return .conditional t.line condition body (some (← block instruction))
  else
    return .conditional t.line condition body none

/-- Does a variable declaration come next? -/
def seesVariable : Reader Bool := sees (keyword "const") <||> sees (keyword "var")

/-! ## Expressions -/

/-- The binary operator that comes next, if one does. -/
def nextOperator : Reader (Option Operator) := do
  match ← peek 0 with
  | none => return none
  | some t => return if t.kind = .op ∨ t.kind = .keyword then Operator.ofSign? t.text else none

/-- Goes on with an operand chain: takes every operator that binds at least as tightly as `least`,
with its right operand. `bound` has a token for each operator. -/
def climb (chain : Nat → Reader Node) (least : Nat) (bound : List Token) (left : Node) :
    Reader Node := do
  match ← nextOperator with
  | none => return left
  | some operator =>
    if operator.precedence < least then return left
    else
      let t ← advance
      let right ← chain (operator.precedence + 1)
      match bound with
      | [] => throw .overflow
      | _ :: bound => climb chain least bound (.binary t.line operator left right)

/-- What is applied to an operand next, if anything is: a call, a member access or a path. -/
def application? (expression : Reader Node) (node : Node) : Reader (Option Node) := do
  if ← sees (punct "(") then
    let line := ((← peek 0).map (·.line)).getD 0
    return some (.call line node (← args expression))
  else if ← sees (punct ".") then
    let dot ← advance
    match ← peek 0 with
    | some t =>
      if t.kind = .name ∨ t.kind = .keyword then
        let member ← advance
        return some (.objectAccess dot.line node member.text)
      else fail .expectedPropertyName
    | none => fail .expectedPropertyName
  else if ← sees (op "::") then
    unless node.isPath do fail .misplacedPath
    let colons ← advance
    let member ← expectAs (any .name) (.described "module member")
    return some (.moduleAccess colons.line node member.text)
  else return none

/-- Goes on with an operand: takes all that is applied to it. `bound` has a token for each. -/
def applications (expression : Reader Node) (bound : List Token) (node : Node) :
    Reader Node := do
  match ← application? expression node with
  | none => return node
  | some next =>
    match bound with
    | [] => throw .overflow
    | _ :: bound => applications expression bound next

/-- An operand and all that is applied to it. -/
def applied (expression : Reader Node) (node : Node) : Reader Node := do
  applications expression (← pending) node

/-- One key of an object literal and its value. -/
def property (expression : Reader Node) : Reader (String × Node) := do
  match ← peek 0 with
  | some t =>
    if t.kind = .name ∨ t.kind = .keyword ∨ t.kind = .string then
      let key ← advance
      let _ ← expect (punct ":")
      return (key.text, ← expression)
    else fail .expectedKey
  | none => fail .expectedKey

/-- An object literal. -/
def objectLiteral (expression : Reader Node) : Reader Node := do
  let t ← expect (punct "\x7b")
  return .object t.line (← commaList (punct "\x7d") (property expression))

/-- An array literal. -/
def arrayLiteral (expression : Reader Node) : Reader Node := do
  let t ← expect (punct "[")
  return .array t.line (← commaList (punct "]") expression)

/-- An expression in parentheses. -/
def parenthesised (expression : Reader Node) : Reader Node := do
  let _ ← advance
  let node ← expression
  let _ ← expect (punct ")")
  return node

/-- A literal, a name, a function, or an expression in brackets. -/
def primaryOf (expression instruction : Reader Node) : Reader Node := do
  match ← peek 0 with
  | none => fail .unexpectedEnd
  | some t =>
    match t.kind with
    | .integer => do
      let _ ← advance
      return .integer t.line (← integerOf t.text)
    | .float => do
      let _ ← advance
      return .float t.line (doubleOf t.text)
    | .string => do
      let _ ← advance
      return .string t.line t.text
    | .char => do
      let _ ← advance
      return .char t.line t.text
    | .name => do
      let _ ← advance
      return .identifier t.line t.text
    | .keyword =>
      if t.text = "true" ∨ t.text = "false" then do
        let _ ← advance
        return .bool t.line (t.text == "true")
      else if t.text = "undefined" then do
        let _ ← advance
        return .undefined t.line
      else if t.text = "fn" then functionExpr expression instruction
      else fail (.unexpectedToken t.text)
    | .punct =>
      if t.text = "(" then parenthesised expression
      else if t.text = "\x7b" then objectLiteral expression
      else if t.text = "[" then arrayLiteral expression
      else fail (.unexpectedToken t.text)
    | .op => fail (.unexpectedToken t.text)

/-- An operand. A minus sign before a number belongs to the number; before anything else it
subtracts from zero. -/
def operandOf (expression operand primary : Reader Node) : Reader Node := do
  if ← sees (op "-") then
    let minus ← advance
    if ← sees (any .integer) then
      let t ← advance
      applied expression (.integer minus.line (-(← integerOf t.text)))
    else if ← sees (any .float) then
      let t ← advance
      applied expression (.float minus.line (doubleOf t.text).neg)
    else
      return .binary minus.line .sub (.integer minus.line 0) (← operand)
  else
    applied expression (← primary)

/-- An operand chain: an operand and the operators that bind at least as tightly as `least`. -/
def chainOf (chain : Nat → Reader Node) (operand : Reader Node) (least : Nat) : Reader Node := do
  let left ← operand
  climb chain least (← pending) left

/-- An operand chain, or an assignment to one. -/
def expressionOf (expression : Reader Node) (chain : Nat → Reader Node) : Reader Node := do
  let left ← chain 1
  if ← sees (op "=") then
    unless left.isTarget do fail .invalidTarget
    let t ← advance
    return .reassignment t.line left (← expression)
  else return left

/-- An instruction of a function body or block. -/
def instructionOf (expression instruction conditional declaration : Reader Node) :
    Reader Node :=
  terminated do
    if ← seesVariable then
      if ← check (punct "\x7b") 1 then destructuring expression
      else variableDecl expression false
    else if ← (sees (keyword "fn") <&&> check (any .name) 1) then
      functionDecl expression instruction false
    else if ← sees (keyword "module") then moduleDecl declaration false
    else if ← sees (keyword "if") then conditional
    else if ← sees (keyword "export") then fail .nestedExport
    else if ← sees (keyword "return") then fail .returnNotLast
    else expression

/-- A declaration of a module. -/
def declarationOf (expression instruction declaration : Reader Node) : Reader Node := do
  let isExported ← skips (keyword "export")
  if ← sees (keyword "fn") then functionDecl expression instruction isExported
  else if ← seesVariable then
    if ← check (punct "\x7b") 1 then fail .topLevelDestructuring
    variableDecl expression isExported
  else if ← sees (keyword "module") then moduleDecl declaration isExported
  else fail .expectedDeclaration

/-! ## The constructs that contain themselves -/

mutual

/-- An expression. -/
def expression : Nat → Reader Node
  | 0 => throw .overflow
  | depth + 1 => expressionOf (expression depth) (chain depth)

/-- An operand chain. -/
def chain : Nat → Nat → Reader Node
  | 0, _ => throw .overflow
  | depth + 1, least => chainOf (chain depth) (operand depth) least

/-- An operand. -/
def operand : Nat → Reader Node
  | 0 => throw .overflow
  | depth + 1 => operandOf (expression depth) (operand depth) (primary depth)

/-- A literal, a name, a function, or an expression in brackets. -/
def primary : Nat → Reader Node
  | 0 => throw .overflow
  | depth + 1 => primaryOf (expression depth) (instruction depth)

/-- An instruction. -/
def instruction : Nat → Reader Node
  | 0 => throw .overflow
  | depth + 1 =>
    instructionOf (expression depth) (instruction depth) (conditional depth) (declaration depth)

/-- A conditional. -/
def conditional : Nat → Reader Node
  | 0 => throw .overflow
  | depth + 1 => conditionalOf (expression depth) (instruction depth) (conditional depth)

/-- A declaration. -/
def declaration : Nat → Reader Node
  | 0 => throw .overflow
  | depth + 1 => declarationOf (expression depth) (instruction depth) (declaration depth)

end

/-! ## Whole programs -/

/-- The next top-level declaration, with the semicolon that may follow it. -/
def root (depth : Nat) : Reader Node := terminated (declaration depth)

/-- Reads declarations until the text ends; `found` are those before, last first. On a fault the
declarations completed before it are kept. `bound` has a token for each. -/
def rootsFrom (depth : Nat) (bound : List Token) (found : List Node) (stream : Stream) :
    List Node × Option Fault × Stream :=
  match finished stream with
  | .error fault after => (found.reverse, some fault, after)
  | .ok true after => (found.reverse, none, after)
  | .ok false after =>
    match root depth after with
    | .error fault final => (found.reverse, some fault, final)
    | .ok node final =>
      match bound with
      | [] => ((node :: found).reverse, some .overflow, final)
      | _ :: bound => rootsFrom depth bound (node :: found) final

/-- All declarations of a stream, the fault that stopped the reading if there is one, and what is
left of the stream. -/
def roots (depth : Nat) (stream : Stream) : List Node × Option Fault × Stream :=
  rootsFrom depth stream.pending [] stream

/-- All declarations of a source text, and the fault that stopped the reading if there is one. -/
def program (depth : Nat) (source : String) : List Node × Option Fault :=
  let (nodes, fault, _) := roots depth (Stream.ofSource source)
  (nodes, fault)

end Scriptlet.Grammar
