import Scriptlet.Machine.Run
import Scriptlet.Proofs.Erasure

/-!
# What evaluation is made of

However an evaluator is written, all that it ever does to a machine is to ask and change the store,
to note events and to print. `Composed act` says that an action is put together from such actions,
and `evaluatorsComposed` that the five evaluators are. What holds of every action of that kind
follows by induction on how the action is put together, without a look at any construct.

One such thing is that nothing looks at the events that were recorded: an action comes to the same
on a machine that records none (`Composed.ignores_trace`).
-/

namespace Scriptlet

namespace Eval

/-- The action is put together from questions, changes, notes and texts that are printed. -/
inductive Composed : {α : Type} → Eval α → Prop where
  | pure {α : Type} (a : α) : Composed (Pure.pure a)
  | throw {α : Type} (f : Fault) : Composed (MonadExcept.throw f : Eval α)
  | bind {α β : Type} {act : Eval α} {next : α → Eval β} (h : Composed act)
      (hn : ∀ a, Composed (next a)) : Composed (act >>= next)
  | ask {α : Type} (f : Store → α) : Composed (Eval.ask f)
  | query {α : Type} (f : Store → Except Fault α) : Composed (Eval.query f)
  | change (f : Store → Store) : Composed (Eval.change f)
  | add {α : Type} (f : Store → α × Store) : Composed (Eval.add f)
  | note (e : Event) : Composed (Eval.note e)
  | print (text : String) : Composed (Eval.print text)

namespace Composed

variable {α β : Type}

theorem guarded (check : Store → Except Fault Unit) (f : Store → Store) :
    Composed (Eval.guarded check f) := (query check).bind fun _ => change f

theorem mapM {f : α → Eval β} (h : ∀ a, Composed (f a)) :
    ∀ items : List α, Composed (items.mapM f)
  | [] => by
    rw [List.mapM_nil]
    exact pure []
  | a :: items => by
    rw [List.mapM_cons]
    exact (h a).bind fun b => (mapM h items).bind fun bs => pure (b :: bs)

/-- A result that is changed on the way out. -/
theorem map {act : Eval α} (h : Composed act) (f : α → β) : Composed (do return f (← act)) :=
  h.bind fun a => pure (f a)

end Composed

/-! ## Cells -/

theorem newScope_composed (owner : String) (parent : Option ScopeId) :
    Composed (newScope owner parent) := .add _

theorem newVariable_composed (name : String) (isConst : Bool) (v : Value) (isExported : Bool) :
    Composed (newVariable name isConst v isExported) := .map (.add _) _

theorem newObject_composed (prototype : Option ObjectId) (properties : Table Property) :
    Composed (newObject prototype properties) := .map (.add _) _

theorem newArray_composed (elements : List Value) : Composed (newArray elements) :=
  .map (.add _) _

theorem newClosure_composed (name : String) (isExported : Bool) (c : Closure) :
    Composed (newClosure name isExported c) := by
  unfold newClosure
  split
  · exact .bind (.throw _) fun _ => .add _
  · exact .add _

theorem declare_composed (e : Entity) (scope : ScopeId) : Composed (declare e scope) :=
  .bind (.ask _) fun _ => .guarded _ _

theorem introduce_composed (scope : ScopeId) (name : String) (e : Entity) :
    Composed (introduce scope name e) := by
  refine .bind (.ask _) fun free => ?_
  split
  · exact .bind (.change _) fun _ => .pure true
  · exact .pure false

theorem declareAll_composed (isConst : Bool) (scope : ScopeId) (value : Store → String → Value) :
    ∀ names, Composed (declareAll isConst scope value names)
  | [] => .pure ()
  | _ :: rest =>
    .bind (.ask _) fun _ => (newVariable_composed ..).bind fun e =>
      (declare_composed e scope).bind fun _ => declareAll_composed isConst scope value rest

/-! ## Calls and natives -/

theorem bindParameter_composed (scope : ScopeId) (name : String) (isConst : Bool) (v : Value) :
    Composed (bindParameter scope name isConst v) :=
  (newVariable_composed ..).bind fun e => (introduce_composed scope name e).bind fun _ => .pure ()

theorem bindPositional_composed (scope : ScopeId) :
    ∀ params args, Composed (bindPositional scope params args)
  | [], _ => .pure ()
  | _ :: _, [] => .pure ()
  | _ :: params, _ :: args =>
    (bindParameter_composed ..).bind fun _ => bindPositional_composed scope params args

theorem bindArguments_composed (name : String) (c : Closure) (args : List Value) :
    Composed (bindArguments name c args) := by
  refine (newScope_composed ..).bind fun scope => (bindPositional_composed ..).bind fun _ => ?_
  cases c.rest? with
  | none => exact .pure scope
  | some p =>
    exact (newArray_composed _).bind fun _ => (bindParameter_composed ..).bind fun _ => .pure scope

theorem refuse_composed {α : Type} (native wants : String) (given : List Value) :
    Composed (Native.refuse native wants given : Eval α) := .bind (.ask _) fun _ => .throw _

theorem prototypeArg_composed (native : String) (v : Value) :
    Composed (Native.prototypeArg native v) := by
  unfold Native.prototypeArg
  split
  · exact .pure none
  · exact .pure (some _)
  · exact refuse_composed ..

theorem native_composed {invoke : ObjectId → List Value → Eval Value}
    (hi : ∀ id args, Composed (invoke id args)) (limit : Nat) (native : Native)
    (args : List Value) : Composed (native.run invoke limit args) := by
  cases native with
  | print => exact .bind (.query _) fun _ => .bind (.print _) fun _ => .pure _
  | len =>
    show Composed (Native.runLen _)
    unfold Native.runLen
    split
    · exact .pure _
    · exact .map (.ask _) _
    · exact .map (.ask _) _
    · exact refuse_composed ..
  | push =>
    show Composed (Native.runPush _ _)
    unfold Native.runPush
    split
    · exact .bind (.change _) fun _ => .map (.ask _) _
    · exact refuse_composed ..
  | «at» =>
    show Composed (Native.runAt _ _)
    unfold Native.runAt
    split
    · exact .ask _
    · exact refuse_composed ..
  | keys =>
    show Composed (Native.runKeys _)
    unfold Native.runKeys
    split
    · exact .bind (.ask _) fun _ => newArray_composed _
    · exact refuse_composed ..
  | typeOf => exact .map (.ask _) _
  | create => exact (prototypeArg_composed ..).bind fun p => newObject_composed p []
  | setPrototype =>
    show Composed (Native.runSetPrototype _ _)
    unfold Native.runSetPrototype
    split
    · exact (prototypeArg_composed ..).bind fun p => .bind (.guarded _ _) fun _ => .pure _
    · exact refuse_composed ..
  | nothing => exact .pure _
  | first => exact .pure _
  | gather => exact newArray_composed args
  | apply =>
    unfold Native.run
    dsimp only
    split
    · exact hi _ _
    · exact .pure _

/-! ## Evaluation -/

section Constructs

variable {eval : Evaluator} {invoke : ObjectId → List Value → Eval Value}
  {entity : Node → ScopeId → Eval Entity} {control instruction : Node → ScopeId → Eval Unit}

theorem reassignment_composed (he : ∀ node scope, Composed (eval node scope)) (limit : Nat)
    (target value : Node) (scope : ScopeId) :
    Composed (reassignment eval limit target value scope) := by
  unfold reassignment
  split
  · refine (he ..).bind fun v => ?_
    split
    · refine .bind (.ask _) fun properties => ?_
      dsimp only
      split
      · exact .throw _
      · exact (he ..).bind fun _ => .bind (.change _) fun _ => .pure _
    · exact .bind (.query _) fun _ => .throw _
  · refine .bind (.query _) fun e => ?_
    split
    · exact (he ..).bind fun _ => .bind (.guarded _ _) fun _ => .pure _
    · exact .throw _
  · exact .throw _

theorem destructuring_composed (he : ∀ node scope, Composed (eval node scope)) (limit : Nat)
    (names : List String) (isConst : Bool) (source : Node) (scope : ScopeId) :
    Composed (destructuring eval limit names isConst source scope) := by
  refine (he ..).bind fun v => ?_
  split
  · exact (declareAll_composed ..).bind fun _ => .pure _
  · exact .bind (.query _) fun _ => .throw _

theorem binary_composed (he : ∀ node scope, Composed (eval node scope)) (limit : Nat)
    (o : Operator) (left right : Node) (scope : ScopeId) :
    Composed (binary eval limit o left right scope) := by
  refine (he ..).bind fun a => ?_
  split
  · refine .bind (.ask _) fun test => ?_
    split
    · exact .map (.ask _) _
    · exact (he ..).bind fun _ => .map (.query _) _
  · exact (he ..).bind fun _ => .query _

theorem call_composed (he : ∀ node scope, Composed (eval node scope))
    (hi : ∀ id args, Composed (invoke id args)) (limit : Nat) (function : Node)
    (args : List Node) (scope : ScopeId) :
    Composed (call eval invoke limit function args scope) := by
  have hcallee : Composed (callee eval limit function scope) := by
    unfold callee
    split
    · exact .query _
    · exact (he ..).bind fun _ => .query _
  have finish : ∀ id, Composed (do let values ← args.mapM (eval · scope); invoke id values) :=
    fun id => (Composed.mapM (fun node => he node scope) args).bind fun _ => hi id _
  refine hcallee.bind fun id => .bind (.ask _) fun defined => ?_
  dsimp only
  split
  · exact .bind (.query _) fun _ => finish id
  · exact finish id

theorem entries_composed (he : ∀ node scope, Composed (eval node scope)) (scope : ScopeId) :
    ∀ (pairs : List (String × Node)) (found : Table Property),
      Composed (entries eval scope pairs found)
  | [], found => .pure found
  | (_, node) :: rest, _ => (he node scope).bind fun _ => entries_composed he scope rest _

theorem valueOf_composed (he : ∀ node scope, Composed (eval node scope))
    (hi : ∀ id args, Composed (invoke id args)) (limit : Nat) (node : Node) (scope : ScopeId) :
    Composed (valueOf eval invoke limit node scope) := by
  cases node with
  | functionExpr => exact .map (newClosure_composed ..) _
  | reassignment => exact reassignment_composed he ..
  | moduleAccess =>
    rw [valueOf]
    exact .query _
  | destructuring => exact destructuring_composed he ..
  | objectAccess => exact (he ..).bind fun _ => .query _
  | binary => exact binary_composed he ..
  | call => exact call_composed he hi ..
  | identifier => exact .bind (.query _) fun _ => .query _
  | object line pairs =>
    exact (entries_composed he scope pairs []).bind fun t => newObject_composed none t
  | array line elements =>
    exact (Composed.mapM (fun node => he node scope) elements).bind fun _ => newArray_composed _
  | char line text =>
    rw [valueOf]
    split
    · exact .pure _
    · exact .throw _
  | string | integer | float | bool | undefined => exact .pure _
  | functionDecl | moduleDecl | variableDecl | conditional | unknown => exact .throw _

theorem declarations_composed (hn : ∀ node scope, Composed (entity node scope))
    (scope : ScopeId) : ∀ nodes, Composed (declarations entity scope nodes)
  | [] => .pure ()
  | node :: rest =>
    (hn node scope).bind fun e => (declare_composed e scope).bind fun _ =>
      declarations_composed hn scope rest

theorem entityOf_composed (he : ∀ node scope, Composed (eval node scope))
    (hn : ∀ node scope, Composed (entity node scope)) (node : Node) (scope : ScopeId) :
    Composed (entityOf eval entity node scope) := by
  unfold entityOf
  split
  · exact .map (newClosure_composed ..) _
  · exact (newScope_composed ..).bind fun own => (declarations_composed hn own _).bind fun _ =>
      .pure _
  · exact (he ..).bind fun _ => newVariable_composed ..
  · exact .throw _

theorem instructions_composed (hx : ∀ node scope, Composed (instruction node scope))
    (scope : ScopeId) : ∀ nodes, Composed (instructions instruction scope nodes)
  | [] => .pure ()
  | node :: rest => (hx node scope).bind fun _ => instructions_composed hx scope rest

theorem controlOf_composed (he : ∀ node scope, Composed (eval node scope))
    (hx : ∀ node scope, Composed (instruction node scope)) (node : Node) (scope : ScopeId) :
    Composed (controlOf eval instruction node scope) := by
  unfold controlOf
  split
  · refine (he ..).bind fun v => ?_
    split
    · exact .pure ()
    · exact .bind (.ask _) fun _ => (newScope_composed ..).bind fun own =>
        instructions_composed hx own _
  · exact .note _

theorem instructionOf_composed (he : ∀ node scope, Composed (eval node scope))
    (hn : ∀ node scope, Composed (entity node scope))
    (hc : ∀ node scope, Composed (control node scope)) (node : Node) (scope : ScopeId) :
    Composed (instructionOf eval entity control node scope) := by
  unfold instructionOf
  split
  · exact (he ..).bind fun _ => .pure ()
  · exact hc node scope
  · exact (hn ..).bind fun e => (declare_composed e scope).bind fun _ => .bind (.ask _) fun _ =>
      .bind (.ask _) fun _ => .note _
  · exact .throw _

theorem invokeOf_composed (he : ∀ node scope, Composed (eval node scope))
    (hx : ∀ node scope, Composed (instruction node scope))
    (hi : ∀ id args, Composed (invoke id args)) (limit : Nat) (id : ObjectId)
    (args : List Value) : Composed (invokeOf eval instruction invoke limit id args) := by
  refine .bind (.query _) fun _ => .bind (.ask _) fun f => ?_
  split
  · exact .pure _
  · refine .bind (.note _) fun _ => ?_
    split
    · exact native_composed hi limit _ args
    · refine (bindArguments_composed ..).bind fun scope => ?_
      refine (instructions_composed hx scope _).bind fun _ => .bind (.query _) fun _ => ?_
      split
      · exact .pure _
      · exact he ..
    · exact .pure _

end Constructs

/-- The five evaluators at a nesting depth. -/
structure EvaluatorsComposed (depth : Nat) : Prop where
  value : ∀ node scope, Composed (value depth node scope)
  entity : ∀ node scope, Composed (entity depth node scope)
  control : ∀ node scope, Composed (control depth node scope)
  instruction : ∀ node scope, Composed (instruction depth node scope)
  invoke : ∀ id args, Composed (invoke depth id args)

theorem evaluatorsComposed : ∀ depth, EvaluatorsComposed depth
  | 0 =>
    { value := fun _ _ => .throw _
      entity := fun _ _ => .throw _
      control := fun _ _ => .throw _
      instruction := fun _ _ => .throw _
      invoke := fun _ _ => .throw _ }
  | depth + 1 =>
    have ih := evaluatorsComposed depth
    { value := valueOf_composed ih.value ih.invoke depth
      entity := entityOf_composed ih.value ih.entity
      control := controlOf_composed ih.value ih.instruction
      instruction := instructionOf_composed ih.value ih.entity ih.control
      invoke := invokeOf_composed ih.value ih.instruction ih.invoke depth }

end Eval

/-! ## Events -/

/-- The machine without its record of events. -/
def Machine.untraced (m : Machine) : Machine := { m with tracing := false, events := [] }

/-- The record of events is erased. -/
def traceless : Erasure Fault Machine := ⟨Machine.untraced, id⟩

namespace Eval

/-- Without the record, noting an event is doing nothing. -/
theorem note_erased (e : Event) : traceless.Mirrors id (note e) (Pure.pure ()) := by
  constructor
  intro m
  show EStateM.Result.ok () m.untraced = .ok () (m.noted e).untraced
  unfold Machine.noted
  split <;> rfl

/-- Nothing that is put together in this way looks at the events recorded. -/
theorem Composed.ignores_trace {α : Type} {act : Eval α} (h : Composed act) :
    traceless.Mirrors id act act := by
  induction h with
  | pure a => exact .pure a
  | throw f => exact .throw f
  | bind _ _ ih ihn => exact ih.next ihn
  | ask f => exact ⟨fun _ => rfl⟩
  | query f =>
    refine Erasure.Mirrors.get.bind fun m => ?_
    have hstore : (traceless.state m).store = m.store := rfl
    rw [hstore]
    cases f m.store with
    | ok a => exact .pure a
    | error fault => exact .throw fault
  | change f => exact .modified fun _ => rfl
  | add f => exact ⟨fun _ => rfl⟩
  | note e => exact ⟨(note_erased e).outcome_eq⟩
  | print text => exact .modified fun _ => rfl

end Eval

end Scriptlet
