import Scriptlet.Machine.Run
import Scriptlet.Proofs.Erasure
import Scriptlet.Proofs.Store.Layout

/-!
# Evaluation does not look at lines

A tree without lines, evaluated on a machine whose functions have lost theirs, comes to the same as
the tree itself on the machine itself, without lines (`evaluatorsBlind`). This includes faults: none
of them names a line.

`lineless.Mirrors f act act'` compares the two; `f` drops the lines of the result, and is the
identity for values, entities and scopes, which have none. The rules are one for each way to ask or
change the store, and then one lemma for each construct.
-/

namespace Scriptlet

/-- The machine without the lines of the functions in its store. -/
def Machine.unlined (m : Machine) : Machine := { m with store := m.store.unlined }

/-- Lines are erased. -/
def lineless : Erasure Fault Machine := ⟨Machine.unlined, id⟩

namespace Eval

open Erasure (Mirrors)

variable {α β : Type}

/-- The action does the same on a machine without lines. -/
abbrev Blind (act : Eval α) : Prop := lineless.Mirrors id act act

/-! ## Asking and changing -/

theorem ask_blind {f : α → β} {g : Store → α} {g' : Store → β}
    (h : ∀ s : Store, g' s.unlined = f (g s)) : lineless.Mirrors f (ask g) (ask g') := by
  constructor
  intro m
  show EStateM.Result.ok (g' m.store.unlined) _ = _
  rw [h]
  rfl

theorem query_blind {f : α → β} {g : Store → Except Fault α} {g' : Store → Except Fault β}
    (h : ∀ s : Store, g' s.unlined = (g s).map f) : lineless.Mirrors f (query g) (query g') := by
  refine Mirrors.get.bind fun m => ?_
  have hanswer : g' (lineless.state m).store = (g m.store).map f := h m.store
  rw [hanswer]
  cases g m.store with
  | ok a => exact .pure a
  | error fault => exact .throw fault

/-- A question whose answer has no lines. -/
theorem query_blind_id {g g' : Store → Except Fault α} (h : ∀ s : Store, g' s.unlined = g s) :
    lineless.Mirrors id (query g) (query g') := by
  refine query_blind fun s => ?_
  rw [h]
  cases g s <;> rfl

theorem change_blind {g : Store → Store} (h : ∀ s : Store, g s.unlined = (g s).unlined) :
    Blind (change g) := by
  refine .modified fun m => ?_
  show ({ m with store := g m.store.unlined } : Machine) = _
  rw [h]
  rfl

theorem guarded_blind {check : Store → Except Fault Unit} {g : Store → Store}
    (hc : ∀ s : Store, check s.unlined = check s) (h : ∀ s : Store, g s.unlined = (g s).unlined) :
    Blind (guarded check g) := (query_blind_id hc).next fun _ => change_blind h

theorem add_blind {g g' : Store → α × Store}
    (h : ∀ s : Store, g' s.unlined = ((g s).1, (g s).2.unlined)) :
    lineless.Mirrors id (add g) (add g') := by
  constructor
  intro m
  show EStateM.Result.ok (g' m.store.unlined).1 { m with store := (g' m.store.unlined).2 } = _
  rw [h]
  rfl

theorem note_blind (e : Event) : Blind (note e) := by
  refine .modified fun m => ?_
  show (if m.tracing then { m.unlined with events := ⟨m.output.length, e⟩ :: m.events }
    else m.unlined) = (m.noted e).unlined
  unfold Machine.noted
  split <;> rfl

theorem print_blind (text : String) : Blind (print text) := .modified fun _ => rfl

/-! ## Cells -/

theorem newScope_blind (owner : String) (parent : Option ScopeId) : Blind (newScope owner parent) :=
  add_blind fun _ => rfl

theorem newVariable_blind (name : String) (isConst : Bool) (v : Value) (isExported : Bool) :
    Blind (newVariable name isConst v isExported) :=
  .next (add_blind fun _ => rfl) fun _ => .pure _

theorem newObject_blind (prototype : Option ObjectId) (properties : Table Property) :
    Blind (newObject prototype properties) :=
  .next (add_blind fun s => s.addObject_unlined ⟨prototype, properties, none⟩) fun _ => .pure _

theorem newArray_blind (items : List Value) : Blind (newArray items) :=
  .next (add_blind fun _ => rfl) fun _ => .pure _

theorem newClosure_blind (name : String) (isExported : Bool) (c : Closure) :
    lineless.Mirrors id (newClosure name isExported c) (newClosure name isExported c.unlined) := by
  have made : lineless.Mirrors id (newFunction ⟨name, isExported, .closure c⟩)
      (newFunction ⟨name, isExported, .closure c.unlined⟩) :=
    add_blind fun s => s.addObject_unlined ⟨none, [], some ⟨name, isExported, .closure c⟩⟩
  exact .ite (.next (.throw (Fault.restBeforeLast name)) fun _ => made) made

theorem declare_blind (e : Entity) (scope : ScopeId) : Blind (declare e scope) :=
  .next (ask_blind fun s => s.entityName_unlined e) fun _ =>
    guarded_blind (fun _ => rfl) fun _ => rfl

theorem introduce_blind (scope : ScopeId) (name : String) (e : Entity) :
    Blind (introduce scope name e) :=
  .next (ask_blind fun _ => rfl) fun _ =>
    .ite (.next (change_blind fun _ => rfl) fun _ => .pure _) (.pure _)

theorem declareAll_blind (isConst : Bool) (scope : ScopeId) {value : Store → String → Value}
    (h : ∀ (s : Store) name, value s.unlined name = value s name) :
    ∀ names, Blind (declareAll isConst scope value names)
  | [] => .pure ()
  | name :: rest =>
    .next (ask_blind fun s => h s name) fun _ => (newVariable_blind ..).next fun e =>
      (declare_blind e scope).next fun _ => declareAll_blind isConst scope h rest

theorem resolve_blind (scope : ScopeId) (name : String) : Blind (resolve scope name) :=
  query_blind_id fun _ => rfl

theorem bindParameter_blind (scope : ScopeId) (name : String) (isConst : Bool) (v : Value) :
    Blind (bindParameter scope name isConst v) :=
  (newVariable_blind ..).next fun _ => (introduce_blind ..).next fun _ => .pure _

theorem bindPositional_blind (scope : ScopeId) :
    ∀ params args, Blind (bindPositional scope params args)
  | [], _ => .pure ()
  | _ :: _, [] => .pure ()
  | _ :: params, _ :: args =>
    (bindParameter_blind ..).next fun _ => bindPositional_blind scope params args

theorem bindArguments_blind (name : String) (c : Closure) (args : List Value) :
    lineless.Mirrors id (bindArguments name c args) (bindArguments name c.unlined args) := by
  refine (newScope_blind ..).next fun scope => (bindPositional_blind ..).next fun _ => ?_
  have hrest : c.unlined.rest? = c.rest? := rfl
  rw [hrest]
  cases c.rest? with
  | none => exact .pure scope
  | some p =>
    exact (newArray_blind _).next fun _ => (bindParameter_blind ..).next fun _ => .pure scope

theorem checkEscape_blind (name : String) (c : Closure) (scope : ScopeId) :
    lineless.Mirrors id (checkEscape name c scope) (checkEscape name c.unlined scope) := by
  refine query_blind_id fun s => ?_
  have hresult : c.unlined.result = c.result.unlined := rfl
  rw [hresult]
  cases c.result with
  | identifier line symbol => rfl
  | _ => simp only [Node.unlined]

/-! ## Natives -/

theorem refuse_blind (native wants : String) (given : List Value) :
    Blind (Native.refuse native wants given : Eval α) := by
  refine .next (ask_blind fun s => ?_) fun _ => .throw _
  exact List.map_congr_left fun v _ => s.typeName_unlined v

theorem prototypeArg_blind (native : String) (v : Value) :
    Blind (Native.prototypeArg native v) := by
  cases v with
  | undefined | object => exact .pure _
  | primitive | array | foreign => exact refuse_blind ..

theorem native_blind {invoke : ObjectId → List Value → Eval Value}
    (hi : ∀ id args, Blind (invoke id args)) (limit : Nat) (native : Native) (args : List Value) :
    Blind (native.run invoke limit args) := by
  cases native with
  | print =>
    refine .next (query_blind_id fun s => ?_) fun _ => (print_blind _).next fun _ => .pure _
    have hformat : s.unlined.format limit = s.format limit := funext (s.format_unlined limit)
    rw [hformat]
  | len =>
    show Blind (Native.runLen _)
    unfold Native.runLen
    split
    · exact .pure _
    · exact .next (ask_blind fun _ => rfl) fun _ => .pure _
    · exact .next (ask_blind fun s => s.properties_unlined _) fun _ => .pure _
    · exact refuse_blind ..
  | push =>
    show Blind (Native.runPush _ _)
    unfold Native.runPush
    split
    · exact .next (change_blind fun _ => rfl) fun _ =>
        .next (ask_blind fun _ => rfl) fun _ => .pure _
    · exact refuse_blind ..
  | «at» =>
    show Blind (Native.runAt _ _)
    unfold Native.runAt
    split
    · exact ask_blind fun _ => rfl
    · exact refuse_blind ..
  | keys =>
    show Blind (Native.runKeys _)
    unfold Native.runKeys
    split
    · exact .next (ask_blind fun s => s.properties_unlined _) fun _ => newArray_blind _
    · exact refuse_blind ..
  | typeOf => exact .next (ask_blind fun s => s.typeName_unlined _) fun _ => .pure _
  | create => exact (prototypeArg_blind ..).next fun p => newObject_blind p []
  | setPrototype =>
    show Blind (Native.runSetPrototype _ _)
    unfold Native.runSetPrototype
    split
    · refine (prototypeArg_blind ..).next fun p => .next ?_ fun _ => .pure _
      exact guarded_blind (fun s => s.checkPrototype_unlined _ p)
        fun s => s.setPrototype_unlined _ p
    · exact refuse_blind ..
  | nothing => exact .pure _
  | first => exact .pure _
  | gather => exact newArray_blind _
  | apply =>
    unfold Native.run
    dsimp only
    split
    · exact hi _ _
    · exact .pure _

/-! ## Evaluation -/

section Constructs

variable {eval : Evaluator} {invoke : ObjectId → List Value → Eval Value}
  {entity : Node → ScopeId → Eval Entity} {control instruction : Node → ScopeId → Eval Unit}

/-- An evaluator that does not look at lines. -/
abbrev LooksAway (eval : Node → ScopeId → Eval α) : Prop :=
  ∀ node scope, lineless.Mirrors id (eval node scope) (eval node.unlined scope)

/-- A value that a construct does not apply to is shown in the fault. -/
theorem refuseValue_blind (limit : Nat) (v : Value) (fault : String → Fault) :
    Blind (do throw (fault (← query (·.format limit v))) : Eval α) :=
  .next (query_blind_id fun s => s.format_unlined limit v) fun text => .throw (fault text)

theorem assignMember_blind (he : LooksAway eval) (limit : Nat) (owner : Node) (member : String)
    (value : Node) (scope : ScopeId) :
    lineless.Mirrors id (assignMember eval limit owner member value scope)
      (assignMember eval limit owner.unlined member value.unlined scope) := by
  refine (he owner scope).next fun target => ?_
  cases target with
  | object target =>
    refine .next (ask_blind fun s => s.properties_unlined target) fun properties => ?_
    have written : ∀ p : Value → Property, lineless.Mirrors id
        (do let v ← eval value scope; change (·.setProperty target member (p v)); return v)
        (do
          let v ← eval value.unlined scope
          change (·.setProperty target member (p v))
          return v) :=
      fun p => (he value scope).next fun v =>
        .next (change_blind fun s => s.setProperty_unlined target member (p v)) fun _ => .pure v
    exact .ite (.next (.throw (Fault.readOnly member)) fun _ => written _) (written _)
  | _ => exact refuseValue_blind limit _ (Fault.unsettableMember member)

theorem assignName_blind (he : LooksAway eval) (name : String) (value : Node) (scope : ScopeId) :
    lineless.Mirrors id (assignName eval name value scope)
      (assignName eval name value.unlined scope) := by
  refine (resolve_blind scope name).next fun e => ?_
  cases e with
  | var id =>
    exact (he value scope).next fun v =>
      .next (guarded_blind (fun _ => rfl) fun _ => rfl) fun _ => .pure v
  | fn | mod => exact .throw (Fault.notAVariable name)

theorem reassignment_blind (he : LooksAway eval) (limit : Nat) (target value : Node)
    (scope : ScopeId) :
    lineless.Mirrors id (reassignment eval limit target value scope)
      (reassignment eval limit target.unlined value.unlined scope) := by
  cases target with
  | objectAccess line owner member =>
    rw [Node.unlined]
    exact assignMember_blind he limit owner member value scope
  | identifier line name =>
    rw [Node.unlined]
    exact assignName_blind he name value scope
  | _ =>
    rw [Node.unlined]
    exact .throw (Fault.unsupportedTarget _)

theorem destructuring_blind (he : LooksAway eval) (limit : Nat) (names : List String)
    (isConst : Bool) (source : Node) (scope : ScopeId) :
    lineless.Mirrors id (destructuring eval limit names isConst source scope)
      (destructuring eval limit names isConst source.unlined scope) := by
  refine (he source scope).next fun v => ?_
  cases v with
  | object id =>
    refine (declareAll_blind isConst scope (fun s name => ?_) names).next fun _ => .pure _
    rw [Store.getProperty_unlined]
  | _ => exact refuseValue_blind limit _ Fault.notDestructurable

theorem typeTest?_unlined (s : Store) (node : Node) (scope : ScopeId) :
    typeTest? s.unlined node.unlined scope = typeTest? s node scope := by
  cases node <;> simp [Node.unlined, typeTest?]

theorem instanceOf_blind (he : LooksAway eval) (v : Value) (type : Node) (scope : ScopeId) :
    lineless.Mirrors id (instanceOf eval v type scope) (instanceOf eval v type.unlined scope) := by
  refine .next (ask_blind fun s => typeTest?_unlined s type scope) fun test => ?_
  cases test with
  | some name => exact .next (ask_blind fun s => s.isOfType_unlined v name) fun _ => .pure _
  | none =>
    exact (he type scope).next fun prototype =>
      .next (query_blind_id fun s => s.isInstance_unlined v prototype) fun _ => .pure _

theorem binary_blind (he : LooksAway eval) (limit : Nat) (o : Operator) (left right : Node)
    (scope : ScopeId) :
    lineless.Mirrors id (binary eval limit o left right scope)
      (binary eval limit o left.unlined right.unlined scope) := by
  refine (he left scope).next fun a => .ite (instanceOf_blind he a right scope) ?_
  exact (he right scope).next fun b => query_blind_id fun s => s.operate_unlined limit o a b

theorem callee_blind (he : LooksAway eval) (limit : Nat) (node : Node) (scope : ScopeId) :
    lineless.Mirrors id (callee eval limit node scope) (callee eval limit node.unlined scope) := by
  have evaluated : lineless.Mirrors id
      (do let v ← eval node scope; query (·.asFunction limit v))
      (do let v ← eval node.unlined scope; query (·.asFunction limit v)) :=
    (he node scope).next fun v => query_blind_id fun s => s.asFunction_unlined limit v
  cases node with
  | identifier line name =>
    rw [Node.unlined, callee, callee]
    exact query_blind_id fun s => s.calleeOf_unlined scope name
  | _ =>
    rw [Node.unlined] at evaluated ⊢
    exact evaluated

theorem values_blind (he : LooksAway eval) (nodes : List Node) (scope : ScopeId) :
    lineless.Mirrors id (nodes.mapM (eval · scope))
      ((nodes.map Node.unlined).mapM (eval · scope)) := by
  have hvalues : lineless.Mirrors (List.map id) (nodes.mapM (eval · scope))
      ((nodes.map Node.unlined).mapM (eval · scope)) := .mapM nodes fun node _ => he node scope
  rwa [List.map_id_fun] at hvalues

theorem call_blind (he : LooksAway eval) (hi : ∀ id args, Blind (invoke id args)) (limit : Nat)
    (function : Node) (args : List Node) (scope : ScopeId) :
    lineless.Mirrors id (call eval invoke limit function args scope)
      (call eval invoke limit function.unlined (args.map Node.unlined) scope) := by
  refine (callee_blind he limit function scope).next fun callee => ?_
  refine .next (ask_blind fun s => ?_) fun isDefined => ?_
  · rw [Store.function?_unlined]
    cases s.function? callee with
    | none => rfl
    | some f => exact f.isDefined_unlined
  · have finish : lineless.Mirrors id
        (do let values ← args.mapM (eval · scope); invoke callee values)
        (do let values ← (args.map Node.unlined).mapM (eval · scope); invoke callee values) :=
      (values_blind he args scope).next fun values => hi callee values
    rw [List.length_map]
    refine .ite (.next (query_blind_id fun s => ?_) fun _ => finish) finish
    exact s.checkArity_unlined callee args.length

theorem entries_blind (he : LooksAway eval) (scope : ScopeId) :
    ∀ (pairs : List (String × Node)) (found : Table Property), lineless.Mirrors id
      (entries eval scope pairs found)
      (entries eval scope (pairs.map fun pair => (pair.1, pair.2.unlined)) found)
  | [], found => .pure found
  | (_, node) :: rest, _ => (he node scope).next fun _ => entries_blind he scope rest _

theorem valueOf_blind (he : LooksAway eval) (hi : ∀ id args, Blind (invoke id args)) (limit : Nat) :
    LooksAway (valueOf eval invoke limit) := by
  intro node scope
  cases node with
  | functionExpr line params body result name =>
    rw [Node.unlined, Node.unlinedAll_eq_map]
    exact (newClosure_blind name false ⟨scope, params, body, result⟩).next fun _ => .pure _
  | reassignment line target value =>
    rw [Node.unlined]
    exact reassignment_blind he limit target value scope
  | moduleAccess line path name =>
    rw [Node.unlined, valueOf, valueOf]
    refine query_blind_id fun s => ?_
    rw [s.pathModule_unlined scope limit path]
    simp only [Store.member_unlined]
    rfl
  | destructuring line names isConst source =>
    rw [Node.unlined]
    exact destructuring_blind he limit names isConst source scope
  | objectAccess line target member =>
    rw [Node.unlined]
    exact (he target scope).next
      fun v => query_blind_id fun s => s.readMember_unlined limit v member
  | binary line o left right =>
    rw [Node.unlined]
    exact binary_blind he limit o left right scope
  | call line function args =>
    rw [Node.unlined, Node.unlinedAll_eq_map]
    exact call_blind he hi limit function args scope
  | identifier line name =>
    rw [Node.unlined]
    exact (resolve_blind scope name).next fun e => query_blind_id fun _ => rfl
  | object line pairs =>
    rw [Node.unlined, Node.unlinedPairs_eq_map]
    exact (entries_blind he scope pairs []).next fun properties => newObject_blind none properties
  | array line elements =>
    rw [Node.unlined, Node.unlinedAll_eq_map]
    exact (values_blind he elements scope).next fun values => newArray_blind values
  | char line text =>
    rw [Node.unlined, valueOf, valueOf]
    split
    · exact .pure _
    · exact .throw (Fault.notOneCharacter text)
  | string | integer | float | bool | undefined =>
    rw [Node.unlined]
    exact .pure _
  | functionDecl | moduleDecl | variableDecl | conditional | unknown =>
    rw [Node.unlined]
    exact .throw (Fault.unsupportedNode _)

theorem declarations_blind (hn : LooksAway entity) (scope : ScopeId) : ∀ nodes,
    lineless.Mirrors id (declarations entity scope nodes)
      (declarations entity scope (nodes.map Node.unlined))
  | [] => .pure ()
  | node :: rest =>
    (hn node scope).next fun e => (declare_blind e scope).next fun _ =>
      declarations_blind hn scope rest

theorem entityOf_blind (he : LooksAway eval) (hn : LooksAway entity) :
    LooksAway (entityOf eval entity) := by
  intro node scope
  cases node with
  | functionDecl line name params body result isExported =>
    rw [Node.unlined, Node.unlinedAll_eq_map]
    exact (newClosure_blind name isExported ⟨scope, params, body, result⟩).next fun _ => .pure _
  | moduleDecl line name body isExported =>
    rw [Node.unlined, Node.unlinedAll_eq_map]
    exact (newScope_blind ..).next fun own => (declarations_blind hn own body).next fun _ => .pure _
  | variableDecl line name isConst value isExported =>
    rw [Node.unlined]
    exact (he value scope).next fun v => newVariable_blind name isConst v isExported
  | _ =>
    rw [Node.unlined]
    exact .throw (Fault.unsupportedNode _)

theorem instructions_blind (hx : LooksAway instruction) (scope : ScopeId) : ∀ nodes,
    lineless.Mirrors id (instructions instruction scope nodes)
      (instructions instruction scope (nodes.map Node.unlined))
  | [] => .pure ()
  | node :: rest => (hx node scope).next fun _ => instructions_blind hx scope rest

theorem controlOf_blind (he : LooksAway eval) (hx : LooksAway instruction) :
    LooksAway (controlOf eval instruction) := by
  intro node scope
  cases node with
  | conditional line condition body elseBody =>
    have branched : ∀ branch : List Node, lineless.Mirrors id
        (do
          let own ← newScope (← ask (·.owner scope)) (some scope)
          instructions instruction own branch)
        (do
          let own ← newScope (← ask (·.owner scope)) (some scope)
          instructions instruction own (branch.map Node.unlined)) :=
      fun branch => .next (ask_blind fun _ => rfl) fun _ => (newScope_blind ..).next fun own =>
        instructions_blind hx own branch
    rw [Node.unlined, Node.unlinedAll_eq_map]
    refine (he condition scope).next fun v => ?_
    cases v.truthy with
    | true => exact branched body
    | false =>
      cases elseBody with
      | none => exact .pure ()
      | some branch =>
        rw [Node.unlinedElse, Node.unlinedAll_eq_map]
        exact branched branch
  | _ =>
    rw [Node.unlined]
    exact note_blind _

theorem instructionOf_blind (he : LooksAway eval) (hn : LooksAway entity)
    (hc : LooksAway control) : LooksAway (instructionOf eval entity control) := by
  intro node scope
  unfold instructionOf
  rw [Node.family_unlined, Node.kindName_unlined]
  split
  · exact (he node scope).next fun _ => .pure _
  · exact hc node scope
  · exact (hn node scope).next fun e => (declare_blind e scope).next fun _ =>
      .next (ask_blind fun s => s.entityName_unlined e) fun _ =>
        .next (ask_blind fun _ => rfl) fun _ => note_blind _
  · exact .throw (Fault.unsupportedNode _)

theorem callClosure_blind (he : LooksAway eval) (hx : LooksAway instruction) (name : String)
    (c : Closure) (args : List Value) :
    lineless.Mirrors id (callClosure eval instruction name c args)
      (callClosure eval instruction name c.unlined args) := by
  refine (bindArguments_blind name c args).next fun scope =>
    (instructions_blind hx scope c.body).next fun _ => (checkEscape_blind name c scope).next
      fun _ => ?_
  have hunlined : c.unlined.result = c.result.unlined := rfl
  rw [hunlined]
  have hresult := he c.result scope
  cases hr : c.result with
  | undefined line => exact .pure _
  | _ =>
    rw [hr, Node.unlined] at hresult
    rw [Node.unlined]
    exact hresult

theorem invokeOf_blind (he : LooksAway eval) (hx : LooksAway instruction)
    (hi : ∀ id args, Blind (invoke id args)) (limit : Nat) (id : ObjectId) (args : List Value) :
    Blind (invokeOf eval instruction invoke limit id args) := by
  refine .next (query_blind_id fun s => s.checkArity_unlined id args.length) fun _ => ?_
  refine Mirrors.bind (ask_blind fun s => s.function?_unlined id) fun f => ?_
  cases f with
  | none => exact .pure _
  | some f =>
    obtain ⟨name, isExported, callable⟩ := f
    refine (note_blind _).next fun _ => ?_
    cases callable with
    | native action arity => exact native_blind hi limit action args
    | closure c => exact callClosure_blind he hx name c args
    | hollow => exact .pure _

end Constructs

/-! ## The five evaluators -/

/-- The five evaluators at a nesting depth. -/
structure EvaluatorsBlind (depth : Nat) : Prop where
  value : LooksAway (value depth)
  entity : LooksAway (entity depth)
  control : LooksAway (control depth)
  instruction : LooksAway (instruction depth)
  invoke : ∀ id args, Blind (invoke depth id args)

theorem evaluatorsBlind : ∀ depth, EvaluatorsBlind depth
  | 0 =>
    { value := fun _ _ => .throw Fault.overflow
      entity := fun _ _ => .throw Fault.overflow
      control := fun _ _ => .throw Fault.overflow
      instruction := fun _ _ => .throw Fault.overflow
      invoke := fun _ _ => .throw Fault.overflow }
  | depth + 1 =>
    have ih := evaluatorsBlind depth
    { value := valueOf_blind ih.value ih.invoke depth
      entity := entityOf_blind ih.value ih.entity
      control := controlOf_blind ih.value ih.instruction
      instruction := instructionOf_blind ih.value ih.entity ih.control
      invoke := invokeOf_blind ih.value ih.instruction ih.invoke depth }

end Eval

end Scriptlet
