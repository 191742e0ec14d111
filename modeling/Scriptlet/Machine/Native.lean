import Scriptlet.Machine

/-!
# The natives

What the functions do that are not written in the language. Arguments that are not given are
undefined. Each native checks the kinds of its arguments and says what it expects.
-/

namespace Scriptlet.Native

open Eval

/-- The fault of a native that expects other kinds of arguments. -/
def refuse {α : Type} (native wants : String) (given : List Value) : Eval α := do
  throw (.badArguments native wants (" and ".intercalate (← ask fun s => given.map s.typeName)))

/-- An argument, undefined if it is not given. -/
def arg (args : List Value) (k : Nat) : Value := args[k]?.getD .undefined

/-- Prints its arguments with spaces between them, and a newline. -/
def runPrint (limit : Nat) (args : List Value) : Eval Value := do
  let texts ← query fun s => args.mapM (s.format limit)
  Eval.print (" ".intercalate texts ++ "\n")
  return .undefined

/-- The number of characters, elements, or own properties. -/
def runLen (v : Value) : Eval Value := do
  match v with
  | .primitive (.string text) _ => return .int text.length
  | .array id => return .int (← ask (·.elements id)).size
  | .object id => return .int (← ask (·.properties id)).length
  | v => refuse "len" "a String, Array or Object" [v]

/-- Adds an element to an array; gives the new length. -/
def runPush (target v : Value) : Eval Value := do
  match target with
  | .array id =>
    change (·.pushElement id v)
    return .int (← ask (·.elements id)).size
  | target => refuse "push" "an Array" [target]

/-- The element of an array at an index. -/
def runAt (target index : Value) : Eval Value := do
  match target, index with
  | .array id, .primitive (.int n) _ => ask (·.elementAt id n)
  | target, index => refuse "at" "an Array and an Integer" [target, index]

/-- The names of an object's own properties. -/
def runKeys (v : Value) : Eval Value := do
  match v with
  | .object id => newArray ((← ask (·.properties id)).keys.map Value.string)
  | v => refuse "keys" "an Object" [v]

/-- The name of a value's kind. -/
def runTypeOf (v : Value) : Eval Value := return .string (← ask (·.typeName v))

/-- The object to fall back on that an argument names. -/
def prototypeArg (native : String) (v : Value) : Eval (Option ObjectId) := do
  match v with
  | .undefined => return none
  | .object id => return some id
  | v => refuse native "an Object or undefined as prototype" [v]

/-- A new object that falls back on another. -/
def runCreate (v : Value) : Eval Value := do newObject (← prototypeArg "create" v) []

/-- Makes an object fall back on another; gives the object. -/
def runSetPrototype (target prototype : Value) : Eval Value := do
  match target with
  | .object id =>
    let p ← prototypeArg "setPrototype" prototype
    Eval.setPrototype id p
    return target
  | target => refuse "setPrototype" "an Object" [target]

/-- Calls a native. `invoke` calls a function, for the natives that do. -/
def run (invoke : ObjectId → List Value → Eval Value) (limit : Nat) (native : Native)
    (args : List Value) : Eval Value :=
  match native with
  | .print => runPrint limit args
  | .len => runLen (arg args 0)
  | .push => runPush (arg args 0) (arg args 1)
  | .at => runAt (arg args 0) (arg args 1)
  | .keys => runKeys (arg args 0)
  | .typeOf => runTypeOf (arg args 0)
  | .create => runCreate (arg args 0)
  | .setPrototype => runSetPrototype (arg args 0) (arg args 1)
  | .nothing => return .undefined
  | .first => return arg args 0
  | .gather => newArray args
  | .apply =>
    match args with
    | .object id :: rest => invoke id rest
    | _ => return .undefined

/-- The natives of the standard module with their names and arities, in order. -/
def standard : List (String × Native × Option Nat) :=
  [("print", .print, none), ("len", .len, some 1), ("push", .push, some 2), ("at", .at, some 2),
    ("keys", .keys, some 1), ("typeof", .typeOf, some 1), ("create", .create, some 1),
    ("setPrototype", .setPrototype, some 2)]

end Scriptlet.Native
