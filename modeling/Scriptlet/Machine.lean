import Scriptlet.Store.Operation

/-!
# The machine

What a run of a program acts on: the store, the text printed so far, and, for who asks for it, a
record of events. `Eval` is an action on the machine that may fail; what it did before the failure
stays done.
-/

namespace Scriptlet

/-- What a trace of a run reports. -/
inductive Event where
  | called (function : String) (count : Nat)
  | declared (name owner : String)
  | registered (name module : String)
  | ignored (node : String)
  deriving DecidableEq, Repr

/-- An event, and how many characters had been printed before it. -/
structure Record where
  printed : Nat
  event : Event
  deriving DecidableEq, Repr

/-- The state of a run. -/
structure Machine where
  store : Store
  output : String
  /-- Are events recorded? -/
  tracing : Bool
  /-- The events recorded, last first. -/
  events : List Record

namespace Machine

/-- A machine at rest. -/
def empty (tracing : Bool) : Machine := ⟨Store.empty, "", tracing, []⟩

/-- The machine behind an event, which is recorded if events are. -/
def noted (m : Machine) (e : Event) : Machine :=
  if m.tracing then { m with events := ⟨m.output.length, e⟩ :: m.events } else m

@[simp] theorem noted_store (m : Machine) (e : Event) : (m.noted e).store = m.store := by
  unfold noted
  split <;> rfl

@[simp] theorem noted_output (m : Machine) (e : Event) : (m.noted e).output = m.output := by
  unfold noted
  split <;> rfl

end Machine

/-- An action on the machine. -/
abbrev Eval := EStateM Fault Machine

namespace Eval

/-- The store as it is. -/
def store : Eval Store := return (← get).store

/-- Asks the store a question. -/
def ask {α : Type} (f : Store → α) : Eval α := return f (← get).store

/-- Asks the store a question that may have no answer. -/
def query {α : Type} (f : Store → Except Fault α) : Eval α := do
  match f (← get).store with
  | .ok a => return a
  | .error fault => throw fault

/-- Changes the store. -/
def change (f : Store → Store) : Eval Unit := modify fun m => { m with store := f m.store }

/-- Changes the store unless a check refuses. The check comes first and keeps nothing of the store,
so that the change can be made in place. -/
def guarded (check : Store → Except Fault Unit) (f : Store → Store) : Eval Unit := do
  query check
  change f

/-- Adds a cell to the store and gives the reference to it. -/
def add {α : Type} (f : Store → α × Store) : Eval α :=
  modifyGet fun m =>
    let (a, s) := f m.store
    (a, { m with store := s })

/-- Records an event, if events are recorded. -/
def note (e : Event) : Eval Unit := modify (·.noted e)

/-- Prints a text. -/
def print (text : String) : Eval Unit := modify fun m => { m with output := m.output ++ text }

/-! ## Cells -/

/-- A new scope. -/
def newScope (owner : String) (parent : Option ScopeId) : Eval ScopeId :=
  add (·.addScope owner parent)

/-- A new variable as an entity. -/
def newVariable (name : String) (isConst : Bool) (v : Value) (isExported : Bool) : Eval Entity :=
  return .var (← add (·.addVariable ⟨name, isConst, v, isExported⟩))

/-- A new object. -/
def newObject (prototype : Option ObjectId) (properties : Table Property) : Eval Value :=
  return .object (← add (·.addObject ⟨prototype, properties, none⟩))

/-- A new array. -/
def newArray (elements : List Value) : Eval Value :=
  return .array (← add (·.addArray elements.toArray))

/-- A new function, as an object without properties. -/
def newFunction (f : Function) : Eval ObjectId := add (·.addObject ⟨none, [], some f⟩)

/-- A new function written in the language. Only its last parameter may be a rest parameter. -/
def newClosure (name : String) (isExported : Bool) (c : Closure) : Eval ObjectId := do
  if c.params.dropLast.any (·.isRest) then throw (.restBeforeLast name)
  newFunction ⟨name, isExported, .closure c⟩

/-- Declares an entity under its own name, which has to be free in the scope. -/
def declare (e : Entity) (scope : ScopeId) : Eval Unit := do
  let name ← ask (·.entityName e)
  guarded (·.checkFree scope name) (·.bind scope name e)

/-- Declares an entity under a name if the name is free in the scope, and says whether it is. -/
def introduce (scope : ScopeId) (name : String) (e : Entity) : Eval Bool := do
  if ← ask (·.isFree scope name) then
    change (·.bind scope name e)
    return true
  else return false

/-- Assigns to a variable. -/
def assign (id : VariableId) (v : Value) : Eval Unit :=
  guarded (·.checkMutable id) (·.setVariable id v)

/-- Makes an object fall back on another, or on none. -/
def setPrototype (id : ObjectId) (prototype : Option ObjectId) : Eval Unit :=
  guarded (·.checkPrototype id prototype) (·.setPrototype id prototype)

/-- Declares a new variable for each name, in order. -/
def declareAll (isConst : Bool) (scope : ScopeId) (value : Store → String → Value) :
    List String → Eval Unit
  | [] => return ()
  | name :: rest => do
    let v ← ask (value · name)
    declare (← newVariable name isConst v false) scope
    declareAll isConst scope value rest

/-- What a name stands for in a scope. -/
def resolve (scope : ScopeId) (name : String) : Eval Entity :=
  query fun s => match s.resolve? scope name with
    | some e => .ok e
    | none => .error (.unresolved name)

end Eval

end Scriptlet
