import Scriptlet.Machine.Run
import Scriptlet.Node.Grammar

/-!
# Sessions

A session reads programs and runs them on one machine. Its global scope holds the module `std`; the
declarations of the programs go into the module `main`, whose scope lies in the global one and
lasts as long as the session.

* `Session.load` : reads and evaluates declarations one after the other.
* `Session.run` : the same, then executes `main` with arguments in `std::args`.
* `Session.call` : calls a loaded function.
* `Session.expression`, `Session.execute` : a single expression, or instructions, in the scope of
  `main`.

Reading and evaluation alternate: a declaration is evaluated before the next one is read, so what
stands before an error has taken effect.
-/

namespace Scriptlet.Session

open Eval

/-! ## The machine of a session -/

/-- The global scope. -/
def globalScope : ScopeId := ⟨0⟩

/-- The scope of the standard module. -/
def standardScope : ScopeId := ⟨1⟩

/-- The scope of the main module. -/
def mainScope : ScopeId := ⟨2⟩

/-- The standard module. -/
def standardModule : Module := ⟨"std", standardScope, true⟩

/-- The main module. -/
def mainModule : Module := ⟨"main", mainScope, false⟩

/-- The standard natives as functions. -/
def natives : List Function :=
  Native.standard.map fun (name, action, arity) => ⟨name, true, .native action arity⟩

/-- The table of the standard module: the natives under their names. -/
def standardEntries : Table Entity :=
  natives.mapIdx fun i f => (f.name, .fn ⟨i⟩)

/-- The store that every session begins with. -/
def firstStore : Store where
  scopes := #[⟨"global", none, [("std", .mod standardModule)]⟩,
    ⟨"std", some globalScope, standardEntries⟩, ⟨"main", some globalScope, []⟩]
  vars := #[]
  objects := (natives.map fun f => ⟨none, [], some f⟩).toArray
  arrays := #[]
  boxes := 0

/-- The machine that every session begins with. -/
def start (tracing : Bool) : Machine := ⟨firstStore, "", tracing, []⟩

/-! ## Reading and evaluating in turn -/

/-- Reads item after item until the text ends and acts on each before the next is read. Every item
takes a token, so `bound`, the tokens at the beginning, has one for each. -/
def interleave (item : Reader Node) (act : Node → Eval Unit) (bound : List Token)
    (stream : Stream) : Eval Unit :=
  match Reader.finished stream with
  | .error fault _ => throw fault
  | .ok true _ => return ()
  | .ok false stream =>
    match item stream with
    | .error fault _ => throw fault
    | .ok node rest => do
      act node
      match bound with
      | [] => throw .overflow
      | _ :: bound => interleave item act bound rest

/-- Reads the items of a source text and acts on each. -/
def readAnd (item : Reader Node) (act : Node → Eval Unit) (source : String) : Eval Unit :=
  let stream := Stream.ofSource source
  interleave item act stream.pending stream

/-- Evaluates a declaration into the main module. -/
def register (limit : Nat) (node : Node) : Eval Entity := do
  let e ← entity limit node mainScope
  declare e mainScope
  return e

/-- Evaluates the declarations of a source text into the main module. -/
def load (limit : Nat) (source : String) : Eval Unit :=
  readAnd (Grammar.root limit) (fun node => do let _ ← register limit node) source

/-! ## Running -/

/-- The function that a program begins with: `main`, which takes no arguments. -/
def entryPoint (s : Store) : Except Fault (String × Closure) :=
  match (s.entries mainScope).get? "main" with
  | some (.fn id) =>
    match s.function? id with
    | some ⟨name, _, .closure c⟩ =>
      if c.params.isEmpty then .ok (name, c) else .error .entryPointParameters
    | _ => .error .noEntryPoint
  | _ => .error .noEntryPoint

/-- Makes the arguments of a run known as a constant of the standard module, in place of those of
an earlier run. -/
def bindArgs (argv : List String) : Eval Unit := do
  change fun s => s.modifyEntries standardScope (·.remove "args")
  let args ← newArray (argv.map Value.string)
  declare (← newVariable "args" true args true) standardScope

/-- Executes the body of `main` in a scope that is emptied when it ends. -/
def enter (limit : Nat) (name : String) (c : Closure) : Eval Unit :=
  match limit with
  | 0 => throw .overflow
  | depth + 1 => do
    let scope ← newScope name (some c.scope)
    instructions (instruction depth) scope c.body
    change (·.clean scope)

/-- Runs a program: its declarations, then `main`. -/
def run (limit : Nat) (source : String) (argv : List String) : Eval Unit := do
  readAnd (Grammar.root limit)
    (fun node => do
      let e ← register limit node
      note (.registered (← ask (·.entityName e)) mainModule.name))
    source
  let (name, c) ← query entryPoint
  bindArgs argv
  enter limit name c

/-! ## Single steps -/

/-- Calls a function by a name of the main module. -/
def call (limit : Nat) (name : String) (args : List Value) : Eval Value := do
  let e ← resolve mainScope name
  match ← query (·.entityValue e name) with
  | .object id =>
    if ← ask fun s => (s.function? id).isSome then invoke limit id args
    else throw (.notAFunction name)
  | _ => throw (.notAFunction name)

/-- Evaluates the expression that a source text begins with; gives its value and what is left of
the text. -/
def expression (limit : Nat) (source : String) : Eval (Value × Stream) :=
  match Grammar.expression limit (Stream.ofSource source) with
  | .error fault _ => throw fault
  | .ok node rest => do return (← value limit node mainScope, rest)

/-- Executes the instructions of a source text. -/
def execute (limit : Nat) (source : String) : Eval Unit :=
  readAnd (Grammar.instruction limit) (fun node => instruction limit node mainScope) source

end Scriptlet.Session
