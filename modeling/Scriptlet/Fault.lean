import Scriptlet.Text.Quoted

/-!
# Faults

Everything that can go wrong between a source text and the end of its run. A fault is a cause with
the data that its diagnostic shows; `Fault.message` is the one place that holds the wording.

* `Problem` : what the reader of a source text can object to.
* `Fault` : a problem at a position, a broken rule of the language, or an exhausted resource.
* `Fault.kind` : the family that a fault is reported under.
-/

namespace Scriptlet

/-- A place in a source text. Lines and columns count from one; line zero stands for no place. -/
structure Position where
  line : Nat
  column : Nat
  deriving DecidableEq, Repr, Inhabited

/-- The place of a diagnostic that has none. -/
def Position.nowhere : Position := ⟨0, 0⟩

/-- What the reader hoped to find: a lexeme, shown as it is written, or a description. -/
inductive Wanted where
  | lexeme (text : String)
  | described (text : String)
  deriving DecidableEq, Repr

/-- What the reader of a source text can object to. -/
inductive Problem where
  | unexpectedCharacter (c : Char)
  | unterminatedComment
  | unknownEscape (next : Option Char)
  | unexpectedEnd
  | expected (wanted : Wanted) (found : Option String)
  | unexpectedToken (text : String)
  | expectedDeclaration
  | topLevelDestructuring
  | duplicateParameter (name : String)
  | restNotLast
  | returnNotLast
  | nestedExport
  | unterminatedModule (name : String)
  | unterminatedBlock
  | invalidTarget
  | expectedPropertyName
  | misplacedPath
  | expectedKey
  | remark (text : String)
  deriving DecidableEq, Repr

/-- A cause of failure. -/
inductive Fault where
  /-- The source text cannot be read. -/
  | misread (problem : Problem) (position : Position)
  /-- A name, or a path of names, has no binding. -/
  | unresolved (name : String)
  | alreadyDefined (name owner : String)
  | constantReassigned (name : String)
  | restBeforeLast (function : String)
  | notOneCharacter (text : String)
  | cyclicPrototype
  | escapingLocal (function : String)
  | divisionByZero
  | moduloByZero
  | outOfFloatRange (operator : String)
  | readOnly (member : String)
  | notExported (member module : String)
  | noEntryPoint
  | nativeArity (function : String) (expected received : Nat)
  | exactArity (function : String) (expected received : Nat)
  | leastArity (function : String) (expected received : Nat)
  | entryPointParameters
  | moduleAsValue (name : String)
  | uncallableVariable (name : String)
  | uncallableModule (name : String)
  | uncallableValue (text : String)
  | uncallableFunction (name : String)
  | notAFunction (name : String)
  | notAModule (name : String)
  | notAVariable (name : String)
  | operandMismatch (operator left right : String)
  | badInstanceOf (right : String)
  | unreadableMember (member text : String)
  | unsettableMember (member text : String)
  | notDestructurable (text : String)
  /-- A native refuses the kinds of its arguments. -/
  | badArguments (native wants got : String)
  | unsupportedNode (node : String)
  | unsupportedOperator (operator : String)
  | unsupportedPath (node : String)
  | unsupportedTarget (node : String)
  /-- The nesting of calls, trees or values is deeper than allowed. -/
  | overflow
  /-- An integer has too many digits to be written. -/
  | digitsToText
  /-- A decimal text has too many digits to be read. -/
  | digitsFromText (count : Nat)
  deriving DecidableEq, Repr

/-- The families of faults. -/
inductive Fault.Kind where
  | reading
  | reference
  | runtime
  | arity
  | type
  | unsupported
  | overflow
  | digits
  deriving DecidableEq, Repr

open Text.Quoted

/-- How a diagnostic shows what the reader hoped to find. -/
def Wanted.text : Wanted → String
  | .lexeme text => quoted text
  | .described text => text

/-- The wording of a problem. -/
def Problem.message : Problem → String
  | .unexpectedCharacter c => "Unexpected character " ++ quoted c.toString
  | .unterminatedComment => "Unterminated multi-line comment"
  | .unknownEscape none => "Unknown escape sequence '\\'"
  | .unknownEscape (some c) => "Unknown escape sequence '\\" ++ c.toString ++ "'"
  | .unexpectedEnd => "Unexpected end of input"
  | .expected wanted none => "Expected " ++ wanted.text ++ ", found end of input"
  | .expected wanted (some found) => "Expected " ++ wanted.text ++ ", found " ++ quoted found
  | .unexpectedToken text => "Unexpected token " ++ quoted text
  | .expectedDeclaration => "Expected a declaration (fn, const, var or module)"
  | .topLevelDestructuring => "Destructuring is only allowed inside function bodies"
  | .duplicateParameter name => "Duplicate parameter '" ++ name ++ "'"
  | .restNotLast => "A rest parameter must be the last parameter"
  | .returnNotLast => "'return' must be the last statement of a function body"
  | .nestedExport => "'export' is only allowed at module level"
  | .unterminatedModule name => "Unterminated module '" ++ name ++ "'"
  | .unterminatedBlock => "Unterminated block"
  | .invalidTarget => "Invalid assignment target"
  | .expectedPropertyName => "Expected a property name after '.'"
  | .misplacedPath => "'::' must follow a module name"
  | .expectedKey => "Expected a property key"
  | .remark text => text

/-- The place of a problem as its diagnostic shows it, nothing when there is none. -/
def Position.suffix (p : Position) : String :=
  if p.line = 0 then "" else s!" (line {p.line}, column {p.column})"

namespace Fault

/-- The family of a fault. -/
def kind : Fault → Kind
  | misread .. => .reading
  | unresolved .. => .reference
  | alreadyDefined .. | constantReassigned .. | restBeforeLast .. | notOneCharacter ..
  | cyclicPrototype | escapingLocal .. | divisionByZero | moduloByZero | outOfFloatRange ..
  | readOnly .. | notExported .. | noEntryPoint => .runtime
  | nativeArity .. | exactArity .. | leastArity .. | entryPointParameters => .arity
  | moduleAsValue .. | uncallableVariable .. | uncallableModule .. | uncallableValue ..
  | uncallableFunction .. | notAFunction .. | notAModule .. | notAVariable ..
  | operandMismatch .. | badInstanceOf .. | unreadableMember .. | unsettableMember ..
  | notDestructurable .. | badArguments .. => .type
  | unsupportedNode .. | unsupportedOperator .. | unsupportedPath .. | unsupportedTarget .. =>
    .unsupported
  | overflow => .overflow
  | digitsToText | digitsFromText .. => .digits

/-- The wording of a fault. -/
def message : Fault → String
  | misread problem position => problem.message ++ position.suffix
  | unresolved name => s!"'{name}' is not defined"
  | alreadyDefined name owner => s!"'{name}' is already defined at '{owner}'"
  | constantReassigned name => s!"Cannot reassign constant '{name}'"
  | restBeforeLast function => s!"'{function}': only the last parameter may be a rest parameter"
  | notOneCharacter text => "A char holds exactly one character, got " ++ quoted text
  | cyclicPrototype => "Cyclic prototype chain: an object cannot inherit from itself"
  | escapingLocal function =>
    s!"You returned a locally scoped value in '{function}', which will be destroyed after the " ++
      "execution ends"
  | divisionByZero => "Division by zero"
  | moduloByZero => "Modulo by zero"
  | outOfFloatRange operator =>
    s!"Numeric overflow: the result of '{operator}' is out of the Float range"
  | readOnly member => s!"Property '{member}' is read-only"
  | notExported member module => s!"'{member}' is not exported by module '{module}'"
  | noEntryPoint => "Missing program entry point (main function)"
  | nativeArity function expected received =>
    s!"'{function}' expects {expected} arguments, but {received} has been received"
  | exactArity function expected received =>
    s!"'{function}' expects {expected} arguments, but received {received}"
  | leastArity function expected received =>
    s!"'{function}' expects from {expected} to multiple arguments, but received {received}"
  | entryPointParameters => "The entry point 'main' must not declare parameters"
  | moduleAsValue name => s!"'{name}' is a module and cannot be used as a value"
  | uncallableVariable name =>
    s!"The expression is not callable. '{name}' doesn't contain a value with a call signature"
  | uncallableModule name => s!"The expression is not callable. '{name}' is a module"
  | uncallableValue text => s!"The expression is not callable. '{text}' has no call signature"
  | uncallableFunction name => s!"'{name}' is not callable"
  | notAFunction name => s!"The expression is not callable. '{name}' is not a function"
  | notAModule name => s!"'{name}' is not a module"
  | notAVariable name => s!"Cannot assign to '{name}', it is not a variable"
  | operandMismatch operator left right =>
    s!"Operator '{operator}' cannot be applied to {left} and {right}"
  | badInstanceOf right =>
    s!"The right side of 'instanceof' must be a type name or an object, got {right}"
  | unreadableMember member text => s!"Cannot read property '{member}' of {text}"
  | unsettableMember member text => s!"Cannot set property '{member}' of {text}"
  | notDestructurable text => s!"Cannot destructure {text}, it is not an object"
  | badArguments native wants got => s!"{native} expects {wants}, got {got}"
  | unsupportedNode node => s!"Scrap still doesn't support interpreting '{node}'"
  | unsupportedOperator operator => s!"Unsupported binary operator '{operator}'"
  | unsupportedPath node => s!"'{node}' cannot name a module"
  | unsupportedTarget node => s!"Cannot assign to '{node}'"
  | overflow => "stack overflow"
  | digitsToText =>
    "Exceeds the limit (4300 digits) for integer string conversion; use " ++
      "sys.set_int_max_str_digits() to increase the limit"
  | digitsFromText count =>
    s!"Exceeds the limit (4300 digits) for integer string conversion: value has {count} digits; " ++
      "use sys.set_int_max_str_digits() to increase the limit"

end Fault

end Scriptlet
