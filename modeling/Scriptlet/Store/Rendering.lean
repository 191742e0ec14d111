import Scriptlet.Store
import Scriptlet.Text.Escape
import Scriptlet.Text.Quoted

/-!
# Values as text

Two ways to show a value.

`Store.format` is what a program sees: texts appear raw on their own and quoted inside arrays and
objects; an object with more than two properties takes a line for each, indented by its depth.

`Store.inspect` is what a host sees: the kind and the content of the value.

Formatting goes into arrays and objects but not into functions. It counts down the levels of nesting
that the stack has left and fails with `Fault.overflow` at zero, as it does on data that contains
itself; inspecting marks the place where an array comes back to itself, so it needs no such limit.
How many frames of the stack a level takes is not said: an array takes more than an object. So what
is the same at every number of levels that is large enough is what counts, and not where they run
out.
-/

namespace Scriptlet

open Number Text

/-- The text of an integer, unless it is too long. -/
def integerText (n : Int) : Except Fault String :=
  match Integer.text? n with
  | some text => .ok text
  | none => .error .digitsToText

namespace Primitive

/-- The text of a primitive on its own. -/
def text : Primitive → Except Fault String
  | int n => integerText n
  | float x => .ok x.text
  | string s => .ok s
  | char c => .ok c.toString
  | bool b => .ok (if b then "true" else "false")

/-- The text of a primitive inside an array or object. -/
def nestedText : Primitive → Except Fault String
  | string s => .ok ("\"" ++ String.ofList (Escape.protect s.toList) ++ "\"")
  | char c => .ok ("'" ++ c.toString ++ "'")
  | p => p.text

/-- What a host sees of a primitive. -/
def inspect : Primitive → Except Fault String
  | int n => return "Integer(" ++ (← integerText n) ++ ")"
  | float x => return "Float(" ++ x.text ++ ")"
  | string s => return "String(" ++ Quoted.quoted s ++ ")"
  | char c => return "Char(" ++ Quoted.quoted c.toString ++ ")"
  | bool b => return "Bool(" ++ (if b then "True" else "False") ++ ")"

end Primitive

namespace Payload

/-- The text of a host's own content. -/
def plain : Payload → String
  | nothing => "None"
  | text s => s
  | flag b => if b then "True" else "False"

/-- What a host sees of its own content. -/
def inspect : Payload → String
  | text s => Quoted.quoted s
  | p => p.plain

end Payload

/-- The text of a function; a function in name only has none. -/
def Function.text (f : Function) : Except Fault String :=
  match f.callable with
  | .closure c => .ok s!"fn {f.name}({c.params.length} params) []"
  | .native _ (some arity) => .ok s!"fn {f.name}({arity}) [ native code ]"
  | .native _ none => .ok s!"fn {f.name}(...) [ native code ]"
  | .hollow => .error .overflow

/-- A parameter as it is written. -/
def Param.text (p : Param) : String := (if p.isRest then "..." else "") ++ p.name

/-- The space before a line at a depth. -/
def indentation (depth : Nat) : String := String.ofList (List.replicate (2 * depth) ' ')

/-- The text of an object from the texts of its entries: on one line up to two of them, else on a
line each. -/
def braced (depth : Nat) (entries : List String) : String :=
  if entries.isEmpty then "\x7b\x7d"
  else if entries.length ≤ 2 then "\x7b " ++ ", ".intercalate entries ++ " \x7d"
  else
    "\x7b\n" ++ ",\n".intercalate (entries.map (indentation (depth + 1) ++ ·)) ++ "\n" ++
      indentation depth ++ "\x7d"

namespace Store

/-- The text of a value inside an array or object at a depth. -/
def nested (s : Store) : Nat → Nat → Value → Except Fault String
  | 0, _, _ => .error .overflow
  | limit + 1, depth, v =>
    match v with
    | .undefined => .ok "undefined"
    | .primitive p _ => p.nestedText
    | .foreign content _ => .ok content.plain
    | .array id => do
      let texts ← (s.elements id).toList.mapM fun element => s.nested limit depth element
      return "[" ++ ", ".intercalate texts ++ "]"
    | .object id =>
      match s.function? id with
      | some f => f.text
      | none => do
        let texts ← (s.properties id).mapM fun (key, p) => do
          return key ++ ": " ++ (← s.nested limit (depth + 1) p.value)
        return braced depth texts

/-- The text of a value on its own. -/
def format (s : Store) (limit : Nat) (v : Value) : Except Fault String :=
  match v with
  | .primitive p _ => p.text
  | v => s.nested limit 0 v

/-- What a host sees of a value; `outer` are the arrays that it is part of. -/
def inspectWithin (s : Store) : Nat → List ArrayId → Value → Except Fault String
  | 0, _, _ => .error .overflow
  | limit + 1, outer, v =>
    match v with
    | .undefined => .ok "Undefined"
    | .primitive p _ => p.inspect
    | .foreign content _ => .ok ("Value(" ++ content.inspect ++ ")")
    | .array id =>
      if outer.contains id then .ok "Array([...])"
      else do
        let texts ← (s.elements id).toList.mapM fun element =>
          s.inspectWithin limit (id :: outer) element
        return "Array([" ++ ", ".intercalate texts ++ "])"
    | .object id =>
      match s.function? id with
      | some ⟨name, _, .closure c⟩ =>
        .ok ("<fn " ++ name ++ "(" ++ ", ".intercalate (c.params.map Param.text) ++ ")>")
      | some ⟨name, _, .native ..⟩ => .ok ("<native fn " ++ name ++ ">")
      | _ => .ok ("Object(" ++ ", ".intercalate (s.properties id).keys ++ ")")

/-- What a host sees of a value. -/
def inspect (s : Store) (limit : Nat) (v : Value) : Except Fault String :=
  s.inspectWithin limit [] v

/-- What a host sees of a variable or module. -/
def inspectEntity (s : Store) (limit : Nat) : Entity → Except Fault String
  | .var id => do
    let word := if ((s.variableAt? id).map (·.isConst)).getD false then "const" else "var"
    return "<" ++ word ++ " " ++ s.entityName (.var id) ++ " = " ++
      (← s.inspect limit (s.valueOf id)) ++ ">"
  | .fn id => s.inspect limit (.object id)
  | .mod m => .ok ("<module " ++ m.name ++ ">")

/-- A scope in short: its owner, its names, and whether there is a scope around it. -/
def scopeText (s : Store) (id : ScopeId) : String :=
  "<" ++ s.owner id ++ "> \x7b" ++ ", ".intercalate (s.entries id).keys ++ "\x7d" ++
    (if (s.parent? id).isSome then " -> ..." else "")

/-- A scope and those around it, with their names. -/
def inspectScope (s : Store) (id : ScopeId) : String :=
  let links := (s.scopeChain id).map fun i =>
    s.owner i ++ "\x7b" ++ ", ".intercalate (s.entries i).keys ++ "\x7d"
  "<Scope chain: " ++ " -> ".intercalate links ++ ">"

end Store

end Scriptlet
