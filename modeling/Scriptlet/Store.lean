import Scriptlet.Fault
import Scriptlet.Node
import Scriptlet.Table
import Scriptlet.Value

/-!
# The store

All that a running program can change: scopes, variables, objects and arrays. Each kind has its own
array of cells; a reference is an index into it. Cells are never given back, so a reference that
was once valid stays so.

* A `Scope` has an owner, a parent scope, and a table of entities.
* An `Entity` is what a name stands for: a variable, a function, or a module.
* An `Object` has a table of properties, a prototype to fall back on, and, if it is a function,
  what it does when called.

Lookups go along chains: a name is looked for in a scope and then outward, a property in an object
and then along its prototypes. A chain of different cells is never longer than there are cells,
which bounds `follow`.
-/

namespace Scriptlet

/-- Refers to a scope of the store. -/
structure ScopeId where
  index : Nat
  deriving DecidableEq, Repr

/-- Refers to a variable of the store. -/
structure VariableId where
  index : Nat
  deriving DecidableEq, Repr

/-- A named group of declarations with a scope of its own. -/
structure Module where
  name : String
  scope : ScopeId
  isExported : Bool
  deriving DecidableEq, Repr

/-- What a name stands for. -/
inductive Entity where
  | var (id : VariableId)
  | fn (id : ObjectId)
  | mod (module : Module)
  deriving DecidableEq, Repr

/-- A table of entities, linked to the scope around it. -/
structure Scope where
  owner : String
  parent : Option ScopeId
  entries : Table Entity

/-- A named value. -/
structure Variable where
  name : String
  isConst : Bool
  value : Value
  isExported : Bool

/-- A property of an object. -/
structure Property where
  value : Value
  isStatic : Bool := false
  visibility : String := "public"
  isWriteable : Bool := true

/-- The functions that are not written in the language. -/
inductive Native where
  | print
  | len
  | push
  | at
  | keys
  | typeOf
  | create
  | setPrototype
  /-- Does nothing. -/
  | nothing
  /-- Gives its first argument back. -/
  | first
  /-- Gathers its arguments in an array. -/
  | gather
  /-- Calls its first argument with the others. -/
  | apply
  deriving DecidableEq, Repr

/-- A function written in the language, with the scope that it was defined in. -/
structure Closure where
  scope : ScopeId
  params : List Param
  body : List Node
  result : Node

/-- What a function does when called. -/
inductive Callable where
  | closure (c : Closure)
  /-- A native that takes at most `arity` arguments, any number if there is none. -/
  | native (action : Native) (arity : Option Nat)
  /-- A function in name only. -/
  | hollow

/-- What makes an object a function. -/
structure Function where
  name : String
  isExported : Bool
  callable : Callable

/-- A table of properties. -/
structure Object where
  prototype : Option ObjectId
  properties : Table Property
  function : Option Function

/-- All cells of a running program. -/
structure Store where
  scopes : Array Scope
  vars : Array Variable
  objects : Array Object
  arrays : Array (Array Value)
  /-- The boxes handed out so far. -/
  boxes : Nat

/-- What `start` leads to: `start`, the next one, the next of that, at most `bound` in all. -/
def follow {α : Type} (next : α → Option α) : Nat → α → List α
  | 0, _ => []
  | bound + 1, start =>
    start :: match next start with
      | none => []
      | some a => follow next bound a

namespace Closure

/-- The parameter that takes all further arguments, if the last one does. -/
def rest? (c : Closure) : Option Param := c.params.getLast?.filter (·.isRest)

/-- The parameters that take one argument each. -/
def positional (c : Closure) : List Param := if c.rest?.isSome then c.params.dropLast else c.params

end Closure

namespace Store

/-- A store without cells. -/
def empty : Store := ⟨#[], #[], #[], #[], 0⟩

/-! ## Cells -/

/-- A scope. -/
def scopeAt? (s : Store) (id : ScopeId) : Option Scope := s.scopes[id.index]?

/-- A variable. -/
def variableAt? (s : Store) (id : VariableId) : Option Variable := s.vars[id.index]?

/-- An object. -/
def objectAt? (s : Store) (id : ObjectId) : Option Object := s.objects[id.index]?

/-- The elements of an array. -/
def elements (s : Store) (id : ArrayId) : Array Value := s.arrays[id.index]?.getD #[]

/-- What makes an object a function, if it is one. -/
def function? (s : Store) (id : ObjectId) : Option Function := (s.objectAt? id).bind (·.function)

/-- Adds a scope and gives the reference to it. -/
def addScope (s : Store) (owner : String) (parent : Option ScopeId) : ScopeId × Store :=
  (⟨s.scopes.size⟩, { s with scopes := s.scopes.push ⟨owner, parent, []⟩ })

/-- Adds a variable, which no scope declares yet, and gives the reference to it. -/
def addVariable (s : Store) (v : Variable) : VariableId × Store :=
  (⟨s.vars.size⟩, { s with vars := s.vars.push v })

/-- Adds an object and gives the reference to it. -/
def addObject (s : Store) (o : Object) : ObjectId × Store :=
  (⟨s.objects.size⟩, { s with objects := s.objects.push o })

/-- Adds an array and gives the reference to it. -/
def addArray (s : Store) (elements : Array Value) : ArrayId × Store :=
  (⟨s.arrays.size⟩, { s with arrays := s.arrays.push elements })

/-- A box that was never used before. -/
def addBox (s : Store) : Nat × Store := (s.boxes + 1, { s with boxes := s.boxes + 1 })

/-! ## Scopes -/

/-- The names and entities that a scope declares itself. -/
def entries (s : Store) (id : ScopeId) : Table Entity :=
  ((s.scopeAt? id).map (·.entries)).getD []

/-- The owner of a scope. -/
def owner (s : Store) (id : ScopeId) : String := ((s.scopeAt? id).map (·.owner)).getD ""

/-- The scope around a scope. -/
def parent? (s : Store) (id : ScopeId) : Option ScopeId := (s.scopeAt? id).bind (·.parent)

/-- A scope and those around it, from the inside out. -/
def scopeChain (s : Store) (id : ScopeId) : List ScopeId := follow s.parent? s.scopes.size id

/-- The nearest scope that declares a name. -/
def find? (s : Store) (id : ScopeId) (name : String) : Option ScopeId :=
  (s.scopeChain id).find? fun i => (s.entries i).contains name

/-- What a name stands for in a scope: its nearest declaration. -/
def resolve? (s : Store) (id : ScopeId) (name : String) : Option Entity :=
  (s.scopeChain id).findSome? fun i => (s.entries i).get? name

/-- Changes the table of a scope. -/
def modifyEntries (s : Store) (id : ScopeId) (f : Table Entity → Table Entity) : Store :=
  { s with
    scopes := s.scopes.modify id.index fun scope => { scope with entries := f scope.entries } }

/-- Is a name free in a scope: does the scope itself not declare it? -/
def isFree (s : Store) (id : ScopeId) (name : String) : Bool := !(s.entries id).contains name

/-- Writes a name that is free behind those of a scope. -/
def bind (s : Store) (id : ScopeId) (name : String) (e : Entity) : Store :=
  s.modifyEntries id (· ++ [(name, e)])

/-- Drops all names that a scope declares. -/
def clean (s : Store) (id : ScopeId) : Store := s.modifyEntries id fun _ => []

/-! ## Entities -/

/-- The name that an entity was made with. -/
def entityName (s : Store) : Entity → String
  | .var id => ((s.variableAt? id).map (·.name)).getD ""
  | .fn id => ((s.function? id).map (·.name)).getD ""
  | .mod m => m.name

/-- Can an entity be reached from outside its module? -/
def isExported (s : Store) : Entity → Bool
  | .var id => ((s.variableAt? id).map (·.isExported)).getD false
  | .fn id => ((s.function? id).map (·.isExported)).getD false
  | .mod m => m.isExported

/-- Refuses a name that is not free in a scope. -/
def checkFree (s : Store) (id : ScopeId) (name : String) : Except Fault Unit :=
  if s.isFree id name then .ok () else .error (.alreadyDefined name (s.owner id))

/-- The exported names of a module, in order. -/
def exports (s : Store) (m : Module) : List String :=
  Table.keys ((s.entries m.scope).filter fun entry => s.isExported entry.2)

/-- The value of a variable. -/
def valueOf (s : Store) (id : VariableId) : Value :=
  ((s.variableAt? id).map (·.value)).getD .undefined

/-- Refuses a constant as the target of an assignment. -/
def checkMutable (s : Store) (id : VariableId) : Except Fault Unit :=
  match s.variableAt? id with
  | some x => if x.isConst then .error (.constantReassigned x.name) else .ok ()
  | none => .ok ()

/-- Gives a variable a new value. -/
def setVariable (s : Store) (id : VariableId) (v : Value) : Store :=
  { s with vars := s.vars.modify id.index fun x => { x with value := v } }

/-- The value that a name gives in an expression: a copy of a variable's value, or a function. -/
def entityValue (s : Store) (e : Entity) (name : String) : Except Fault Value :=
  match e with
  | .var id => .ok (s.valueOf id).detach
  | .fn id => .ok (.object id)
  | .mod _ => .error (.moduleAsValue name)

/-! ## Objects -/

/-- The properties that an object has itself. -/
def properties (s : Store) (id : ObjectId) : Table Property :=
  ((s.objectAt? id).map (·.properties)).getD []

/-- The object that an object falls back on. -/
def prototype? (s : Store) (id : ObjectId) : Option ObjectId := (s.objectAt? id).bind (·.prototype)

/-- An object and those that it falls back on, nearest first. -/
def prototypeChain (s : Store) (id : ObjectId) : List ObjectId :=
  follow s.prototype? s.objects.size id

/-- The value of a property of an object or of the first object that it falls back on and that has
it; undefined if there is none. -/
def getProperty (s : Store) (id : ObjectId) (name : String) : Value :=
  (((s.prototypeChain id).findSome? fun o => (s.properties o).get? name).map (·.value)).getD
    .undefined

/-- Does an object, or one that it falls back on, have a property? -/
def hasProperty (s : Store) (id : ObjectId) (name : String) : Bool :=
  (s.prototypeChain id).any fun o => (s.properties o).contains name

/-- Writes a property of an object itself. -/
def setProperty (s : Store) (id : ObjectId) (name : String) (p : Property) : Store :=
  { s with
    objects := s.objects.modify id.index fun o =>
      { o with properties := o.properties.put name p } }

/-- Refuses a prototype that falls back on the object itself: it would close a circle. -/
def checkPrototype (s : Store) (id : ObjectId) (prototype : Option ObjectId) :
    Except Fault Unit :=
  if (prototype.map s.prototypeChain).any (·.contains id) then .error .cyclicPrototype else .ok ()

/-- Makes an object fall back on another, or on none. -/
def setPrototype (s : Store) (id : ObjectId) (prototype : Option ObjectId) : Store :=
  { s with objects := s.objects.modify id.index fun o => { o with prototype } }

/-- Does an object fall back on another, directly or not? -/
def inherits (s : Store) (id prototype : ObjectId) : Bool :=
  id != prototype && (s.prototypeChain id).contains prototype

/-! ## Arrays -/

/-- The element of an array at an index; undefined out of range. -/
def elementAt (s : Store) (id : ArrayId) (index : Int) : Value :=
  if index < 0 then .undefined else (s.elements id)[index.toNat]?.getD .undefined

/-- Adds an element at the end of an array. -/
def pushElement (s : Store) (id : ArrayId) (v : Value) : Store :=
  { s with arrays := s.arrays.modify id.index fun elements => elements.push v }

/-! ## Kinds of values -/

/-- The name of a value's kind. -/
def typeName (s : Store) : Value → String
  | .undefined => "Undefined"
  | .primitive (.int _) _ => "Integer"
  | .primitive (.float _) _ => "Float"
  | .primitive (.string _) _ => "String"
  | .primitive (.char _) _ => "Char"
  | .primitive (.bool _) _ => "Boolean"
  | .object id => if (s.function? id).isSome then "Function" else "Object"
  | .array _ => "Array"
  | .foreign .. => "Value"

/-- The names of kinds that a program can ask for. -/
def typeNames : List String :=
  ["Integer", "Float", "String", "Char", "Boolean", "Undefined", "Object", "Array", "Function"]

end Store

end Scriptlet
