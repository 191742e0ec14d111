import Scriptlet.Machine

/-!
# Calls

What happens around the body of a function: finding out what is called, checking the number of
arguments, and binding them to the parameters in a scope of the call's own.
-/

namespace Scriptlet

/-- Refuses a number of arguments that a function does not take. -/
def Function.checkArity (f : Function) (count : Nat) : Except Fault Unit :=
  match f.callable with
  | .hollow => .error (.uncallableFunction f.name)
  | .native _ none => .ok ()
  | .native _ (some arity) =>
    if arity < count then .error (.nativeArity f.name arity count) else .ok ()
  | .closure c =>
    if c.rest?.isSome then
      let required := c.params.length - 1
      if count < required then .error (.leastArity f.name required count) else .ok ()
    else if count = c.params.length then .ok ()
    else .error (.exactArity f.name c.params.length count)

/-- Is the function written in the language? -/
def Function.isDefined (f : Function) : Bool :=
  match f.callable with
  | .closure _ => true
  | _ => false

namespace Store

/-- The function that a call by name calls. -/
def calleeOf (s : Store) (scope : ScopeId) (name : String) : Except Fault ObjectId :=
  match s.resolve? scope name with
  | none => .error (.unresolved name)
  | some (.fn id) => .ok id
  | some (.mod _) => .error (.uncallableModule name)
  | some (.var x) =>
    match s.valueOf x with
    | .object id =>
      if (s.function? id).isSome then .ok id else .error (.uncallableVariable name)
    | _ => .error (.uncallableVariable name)

/-- The function that a value is. -/
def asFunction (s : Store) (limit : Nat) (v : Value) : Except Fault ObjectId :=
  let refuse : Except Fault ObjectId := do .error (.uncallableValue (← s.format limit v))
  match v with
  | .object id => if (s.function? id).isSome then .ok id else refuse
  | _ => refuse

/-- Refuses a number of arguments that an object does not take. -/
def checkArity (s : Store) (id : ObjectId) (count : Nat) : Except Fault Unit :=
  match s.function? id with
  | some f => f.checkArity count
  | none => .ok ()

end Store

namespace Eval

/-- A parameter of a call as a variable. Of two parameters of one name the first counts. -/
def bindParameter (scope : ScopeId) (name : String) (isConst : Bool) (v : Value) : Eval Unit := do
  let _ ← introduce scope name (← newVariable name isConst v false)

/-- Binds arguments to parameters that take one each. -/
def bindPositional (scope : ScopeId) : List Param → List Value → Eval Unit
  | p :: params, v :: args => do
    bindParameter scope p.name false v
    bindPositional scope params args
  | _, _ => return ()

/-- The scope of a call: positional parameters are mutable, a rest parameter is a constant array of
the remaining arguments. -/
def bindArguments (name : String) (c : Closure) (args : List Value) : Eval ScopeId := do
  let scope ← newScope name (some c.scope)
  bindPositional scope c.positional args
  match c.rest? with
  | some p =>
    bindParameter scope p.name true (← newArray (args.drop c.positional.length))
  | none => pure ()
  return scope

/-- Refuses to return a bare name that the call itself declared, unless it is a parameter. -/
def checkEscape (name : String) (c : Closure) (scope : ScopeId) : Eval Unit :=
  query fun s =>
    match c.result with
    | .identifier _ symbol =>
      if (s.entries scope).contains symbol && c.params.all (·.name != symbol) then
        .error (.escapingLocal name)
      else .ok ()
    | _ => .ok ()

end Eval

end Scriptlet
