import Scriptlet.Machine.Run

/-!
# Values in the hands of a host

A host builds values, keeps hold of them, and asks about them. Every primitive that it builds or
receives gets a box of its own, so that it can tell a value that it held before from a new one with
the same content.
-/

namespace Scriptlet.Host

open Eval

/-- A primitive in a box of its own. -/
def box (p : Primitive) : Eval Value := return .primitive p (← add Store.addBox)

/-- Takes hold of a value that evaluation gave: a new primitive gets a box. -/
def keep : Value → Eval Value
  | .primitive p 0 => box p
  | v => return v

/-- A value of the host's own. -/
def foreign (content : Payload) : Eval Value := return .foreign content (← add Store.addBox)

/-- A char, which holds exactly one character. -/
def char (text : String) : Eval Value :=
  match text.toList with
  | [c] => box (.char c)
  | _ => throw (.notOneCharacter text)

/-- An object. Of the properties under one name the last one counts. -/
def object (properties : List (String × Property)) (prototype : Option ObjectId) : Eval Value :=
  newObject prototype (properties.foldl (fun t (name, p) => t.put name p) [])

/-- A native function. -/
def native (name : String) (arity : Option Nat) (action : Native) : Eval Value :=
  return .object (← newFunction ⟨name, true, .native action arity⟩)

/-- A function in name only. -/
def hollow (name : String) : Eval Value :=
  return .object (← newFunction ⟨name, false, .hollow⟩)

/-- A function with parameters and no body, in a scope of its own. -/
def closure (name : String) (params : List Param) : Eval Value := do
  let scope ← newScope "host" none
  return .object (← newClosure name false ⟨scope, params, [], .undefined 0⟩)

/-- Does a value count as true to the host? Only undefined and empty arrays do not. -/
def isTrue (s : Store) : Value → Bool
  | .undefined => false
  | .array id => !(s.elements id).isEmpty
  | _ => true

/-- The integer after or before an integer, any other value as it is. -/
def shift (step : Int) : Value → Value
  | .primitive (.int n) _ => .int (n + step)
  | v => v

/-- How many of the values are different: neither the very same nor alike. -/
def distinct (values : List Value) : Nat :=
  (values.foldl (fun found v =>
    if found.any (fun w => w == v || w.alike v) then found else v :: found) []).length

end Scriptlet.Host
