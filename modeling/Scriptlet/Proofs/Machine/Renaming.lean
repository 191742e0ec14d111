import Scriptlet.Machine.Run
import Scriptlet.Proofs.Machine.Effect
import Scriptlet.Proofs.Simulation
import Scriptlet.Proofs.Store.Renaming

/-!
# Evaluation does not look at the names of objects

On two machines whose stores are the same up to the cells of objects and the order of tables
(`Store.Renamed`), a tree is evaluated to the same, up to the cells of objects: the same is printed,
and a fault is the very same one (`evaluatorsInStep`). What was recorded is left out of account.

`InStep π f act act'` compares the two; `f` moves the objects of the result. The rules are one for
each way to ask or change the store, and then one lemma for each construct.
-/

namespace Scriptlet

/-- Machines that differ in the cells of their objects, and in what they recorded. -/
structure Machine.Renamed (π : Equiv.Perm ObjectId) (m m' : Machine) : Prop where
  store : m.store.Renamed π m'.store
  output : m'.output = m.output

namespace Eval

variable {α β : Type} {π : Equiv.Perm ObjectId}

/-- The actions come to the same on machines that differ in the cells of their objects. -/
abbrev InStep (π : Equiv.Perm ObjectId) (f : α → β) (act : Eval α) (act' : Eval β) : Prop :=
  Follows (Machine.Renamed π) f act act'

/-! ## Asking and changing -/

theorem ask_inStep {f : α → β} {g : Store → α} {g' : Store → β}
    (h : ∀ {s s' : Store}, s.Renamed π s' → g' s' = f (g s)) : InStep π f (ask g) (ask g') := by
  constructor
  intro m m' hm
  show Paired _ f (.ok (g m.store) m) (.ok (g' m'.store) m')
  rw [h hm.store]
  exact .ok hm

theorem query_inStep {f : α → β} {g : Store → Except Fault α} {g' : Store → Except Fault β}
    (h : ∀ {s s' : Store}, s.Renamed π s' → g' s' = (g s).map f) :
    InStep π f (query g) (query g') := by
  constructor
  intro m m' hm
  have hanswer := h hm.store
  cases hg : g m.store with
  | ok a =>
    rw [hg] at hanswer
    rw [Does.query_ok hg, Does.query_ok hanswer]
    exact .ok hm
  | error fault =>
    rw [hg] at hanswer
    rw [Does.query_error hg, Does.query_error hanswer]
    exact .error hm

/-- A question whose answer has no objects. -/
theorem query_inStep_id {g g' : Store → Except Fault α}
    (h : ∀ {s s' : Store}, s.Renamed π s' → g' s' = g s) : InStep π id (query g) (query g') := by
  refine query_inStep fun {s s'} hs => ?_
  rw [h hs]
  cases g s <;> rfl

theorem change_inStep {g g' : Store → Store}
    (h : ∀ {s s' : Store}, s.Renamed π s' → (g s).Renamed π (g' s')) :
    InStep π id (change g) (change g') :=
  .modified fun hm => ⟨h hm.store, hm.output⟩

theorem guarded_inStep {check check' : Store → Except Fault Unit} {g g' : Store → Store}
    (hc : ∀ {s s' : Store}, s.Renamed π s' → check' s' = check s)
    (h : ∀ {s s' : Store}, s.Renamed π s' → (g s).Renamed π (g' s')) :
    InStep π id (guarded check g) (guarded check' g') :=
  (query_inStep_id hc).next fun _ => change_inStep h

theorem add_inStep {f : α → β} {g : Store → α × Store} {g' : Store → β × Store}
    (h : ∀ {s s' : Store}, s.Renamed π s' → (g' s').1 = f (g s).1 ∧ (g s).2.Renamed π (g' s').2) :
    InStep π f (add g) (add g') := by
  constructor
  intro m m' hm
  obtain ⟨hid, hstore⟩ := h hm.store
  show Paired _ f (.ok (g m.store).1 { m with store := (g m.store).2 })
    (.ok (g' m'.store).1 { m' with store := (g' m'.store).2 })
  rw [hid]
  exact .ok ⟨hstore, hm.output⟩

/-- Nothing is said about what is recorded. -/
theorem note_inStep (e e' : Event) : InStep π id (note e) (note e') := by
  refine .modified fun {m m'} hm => ⟨?_, ?_⟩
  · rw [Machine.noted_store, Machine.noted_store]
    exact hm.store
  · rw [Machine.noted_output, Machine.noted_output]
    exact hm.output

theorem print_inStep (text : String) : InStep π id (print text) (print text) :=
  .modified fun hm => ⟨hm.store, congrArg (· ++ text) hm.output⟩

/-! ## Cells -/

theorem newScope_inStep (owner : String) (parent : Option ScopeId) :
    InStep π id (newScope owner parent) (newScope owner parent) :=
  add_inStep fun hs => ⟨congrArg ScopeId.mk hs.scopes, hs.addScope owner parent⟩

theorem newVariable_inStep (name : String) (isConst : Bool) (v : Value) (isExported : Bool) :
    InStep π (Entity.renamed π) (newVariable name isConst v isExported)
      (newVariable name isConst (v.renamed π) isExported) := by
  refine .next (add_inStep fun {s s'} hs => ⟨?_, hs.addVariable _⟩) fun id => .pure (Entity.var id)
  show (⟨s'.vars.size⟩ : VariableId) = ⟨s.vars.size⟩
  rw [hs.vars, Array.size_map]

/-- The next object has the same cell on both sides. -/
theorem addObject_inStep (o : Object) :
    InStep π π (add (·.addObject o)) (add (·.addObject (o.renamed π))) := by
  refine add_inStep fun {s s'} hs => ⟨?_, hs.addObject o⟩
  show (⟨s'.objects.size⟩ : ObjectId) = π ⟨s.objects.size⟩
  rw [hs.objects, hs.fresh ⟨s.objects.size⟩ (Nat.le_refl _)]

theorem newObject_inStep (prototype : Option ObjectId) (properties : Table Property) :
    InStep π (Value.renamed π) (newObject prototype properties)
      (newObject (prototype.map π) (properties.mapEntries (Property.renamed π))) :=
  (addObject_inStep ⟨prototype, properties, none⟩).bind fun id => .pure (Value.object id)

theorem newArray_inStep (items : List Value) :
    InStep π (Value.renamed π) (newArray items) (newArray (items.map (Value.renamed π))) := by
  refine .next (add_inStep fun {s s'} hs => ⟨?_, ?_⟩) fun id => .pure (Value.array id)
  · show (⟨s'.arrays.size⟩ : ArrayId) = ⟨s.arrays.size⟩
    rw [hs.arrays, Array.size_map]
  · rw [← List.map_toArray]
    exact hs.addArray items.toArray

theorem newClosure_inStep (name : String) (isExported : Bool) (c : Closure) :
    InStep π π (newClosure name isExported c) (newClosure name isExported c) := by
  have made : InStep π π (newFunction ⟨name, isExported, .closure c⟩)
      (newFunction ⟨name, isExported, .closure c⟩) := addObject_inStep ⟨none, [], some _⟩
  exact .ite (.next (.throw (Fault.restBeforeLast name)) fun _ => made) made

theorem declare_inStep (e : Entity) (scope : ScopeId) :
    InStep π id (declare e scope) (declare (e.renamed π) scope) :=
  .next (ask_inStep fun hs => hs.entityName e) fun name =>
    guarded_inStep (fun hs => hs.checkFree scope name) fun hs => hs.bind scope name e

theorem introduce_inStep (scope : ScopeId) (name : String) (e : Entity) :
    InStep π id (introduce scope name e) (introduce scope name (e.renamed π)) :=
  .next (ask_inStep fun hs => hs.isFree scope name) fun _ =>
    .ite (.next (change_inStep fun hs => hs.bind scope name e) fun _ => .pure _) (.pure _)

theorem assign_inStep (x : VariableId) (v : Value) :
    InStep π id (assign x v) (assign x (v.renamed π)) :=
  guarded_inStep (fun hs => hs.checkMutable x) fun hs => hs.setVariable x v

theorem setPrototype_inStep (o : ObjectId) (prototype : Option ObjectId) :
    InStep π id (setPrototype o prototype) (setPrototype (π o) (prototype.map π)) :=
  guarded_inStep (fun hs => hs.checkPrototype o prototype) fun hs => hs.setPrototype o prototype

theorem declareAll_inStep (isConst : Bool) (scope : ScopeId)
    {value value' : Store → String → Value}
    (h : ∀ {s s' : Store}, s.Renamed π s' → ∀ name, value' s' name = (value s name).renamed π) :
    ∀ names, InStep π id (declareAll isConst scope value names)
      (declareAll isConst scope value' names)
  | [] => .pure ()
  | name :: rest =>
    .bind (ask_inStep fun hs => h hs name) fun v =>
      (newVariable_inStep name isConst v false).bind fun e => (declare_inStep e scope).next fun _ =>
        declareAll_inStep isConst scope h rest

theorem resolve_inStep (scope : ScopeId) (name : String) :
    InStep π (Entity.renamed π) (resolve scope name) (resolve scope name) := by
  refine query_inStep fun {s s'} hs => ?_
  rw [hs.resolve?]
  cases s.resolve? scope name <;> rfl

theorem bindParameter_inStep (scope : ScopeId) (name : String) (isConst : Bool) (v : Value) :
    InStep π id (bindParameter scope name isConst v)
      (bindParameter scope name isConst (v.renamed π)) :=
  (newVariable_inStep ..).bind fun e => (introduce_inStep scope name e).next fun _ => .pure _

theorem bindPositional_inStep (scope : ScopeId) : ∀ (params : List Param) (args : List Value),
    InStep π id (bindPositional scope params args)
      (bindPositional scope params (args.map (Value.renamed π)))
  | [], [] | [], _ :: _ | _ :: _, [] => .pure ()
  | p :: params, v :: args =>
    (bindParameter_inStep scope p.name false v).next
      fun _ => bindPositional_inStep scope params args

theorem bindArguments_inStep (name : String) (c : Closure) (args : List Value) :
    InStep π id (bindArguments name c args)
      (bindArguments name c (args.map (Value.renamed π))) := by
  refine (newScope_inStep ..).next fun scope => (bindPositional_inStep ..).next fun _ => ?_
  cases c.rest? with
  | none => exact .pure scope
  | some p =>
    rw [← List.map_drop]
    exact (newArray_inStep _).bind fun v => (bindParameter_inStep ..).next fun _ => .pure scope

theorem checkEscape_inStep (name : String) (c : Closure) (scope : ScopeId) :
    InStep π id (checkEscape name c scope) (checkEscape name c scope) := by
  refine query_inStep_id fun hs => ?_
  cases c.result with
  | identifier line symbol => simp only [hs.contains]
  | _ => rfl

/-! ## Natives -/

theorem refuse_inStep {f : α → β} (native wants : String) (given : List Value) :
    InStep π f (Native.refuse native wants given)
      (Native.refuse native wants (given.map (Value.renamed π))) := by
  refine .next (ask_inStep fun hs => ?_) fun _ => .throw _
  rw [List.map_map]
  exact List.map_congr_left fun v _ => hs.typeName v

theorem arg_renamed (args : List Value) (k : Nat) :
    Native.arg (args.map (Value.renamed π)) k = (Native.arg args k).renamed π := by
  rw [Native.arg, List.getElem?_map, Native.arg]
  cases args[k]? <;> rfl

theorem prototypeArg_inStep (native : String) (v : Value) :
    InStep π (Option.map π) (Native.prototypeArg native v)
      (Native.prototypeArg native (v.renamed π)) := by
  cases v with
  | undefined => exact .pure none
  | object id => exact .pure (some id)
  | primitive | array | foreign => exact refuse_inStep native _ [_]

theorem runLen_inStep (v : Value) :
    InStep π (Value.renamed π) (Native.runLen v) (Native.runLen (v.renamed π)) := by
  cases v with
  | primitive p box =>
    cases p with
    | string text => exact .pure (Value.int _)
    | _ => exact refuse_inStep "len" _ [.primitive _ box]
  | array id =>
    exact .bind (ask_inStep fun hs => hs.elements id) fun items =>
      .returns (by simp)
  | object id =>
    exact .bind (ask_inStep fun hs => hs.properties id) fun properties =>
      .returns (by simp)
  | undefined | foreign => exact refuse_inStep "len" _ [_]

theorem runPush_inStep (target v : Value) :
    InStep π (Value.renamed π) (Native.runPush target v)
      (Native.runPush (target.renamed π) (v.renamed π)) := by
  cases target with
  | array id =>
    exact .next (change_inStep fun hs => hs.pushElement id v) fun _ =>
      .bind (ask_inStep fun hs => hs.elements id) fun items => .returns (by simp)
  | undefined | primitive | object | foreign => exact refuse_inStep "push" _ [_]

theorem runAt_inStep (target index : Value) :
    InStep π (Value.renamed π) (Native.runAt target index)
      (Native.runAt (target.renamed π) (index.renamed π)) := by
  have refused : InStep π (Value.renamed π)
      (Native.refuse "at" "an Array and an Integer" [target, index])
      (Native.refuse "at" "an Array and an Integer" [target.renamed π, index.renamed π]) :=
    refuse_inStep "at" _ [target, index]
  cases target with
  | array id =>
    cases index with
    | primitive p box =>
      cases p with
      | int n => exact ask_inStep fun hs => hs.elementAt id n
      | _ => exact refused
    | _ => exact refused
  | _ => exact refused

theorem runKeys_inStep (v : Value) :
    InStep π (Value.renamed π) (Native.runKeys v) (Native.runKeys (v.renamed π)) := by
  cases v with
  | object id =>
    refine .bind (ask_inStep fun hs => hs.properties id) fun properties => ?_
    rw [Table.keys_mapEntries]
    have made := newArray_inStep (π := π) (properties.keys.map Value.string)
    rwa [List.map_map] at made
  | undefined | primitive | array | foreign => exact refuse_inStep "keys" _ [_]

theorem runSetPrototype_inStep (target prototype : Value) :
    InStep π (Value.renamed π) (Native.runSetPrototype target prototype)
      (Native.runSetPrototype (target.renamed π) (prototype.renamed π)) := by
  cases target with
  | object id =>
    exact (prototypeArg_inStep ..).bind fun p => (setPrototype_inStep id p).next fun _ =>
      .pure (Value.object id)
  | undefined | primitive | array | foreign => exact refuse_inStep "setPrototype" _ [_]

/-- A way to call functions that does not look at the cells of objects. -/
abbrev CallsInStep (π : Equiv.Perm ObjectId) (invoke : ObjectId → List Value → Eval Value) :
    Prop :=
  ∀ id args, InStep π (Value.renamed π) (invoke id args)
    (invoke (π id) (args.map (Value.renamed π)))

theorem native_inStep {invoke : ObjectId → List Value → Eval Value}
    (hi : CallsInStep π invoke) (limit : Nat) (native : Native) (args : List Value) :
    InStep π (Value.renamed π) (native.run invoke limit args)
      (native.run invoke limit (args.map (Value.renamed π))) := by
  unfold Native.run
  simp only [arg_renamed]
  cases native with
  | print =>
    refine .next (query_inStep_id fun {s s'} hs => ?_) fun _ =>
      (print_inStep _).next fun _ => .pure Value.undefined
    rw [List.mapM_map]
    exact congrArg (List.mapM · args) (funext (hs.format limit))
  | len => exact runLen_inStep _
  | push => exact runPush_inStep _ _
  | «at» => exact runAt_inStep _ _
  | keys => exact runKeys_inStep _
  | typeOf => exact .next (ask_inStep fun hs => hs.typeName _) fun text => .pure (Value.string text)
  | create => exact (prototypeArg_inStep ..).bind fun p => newObject_inStep p []
  | setPrototype => exact runSetPrototype_inStep _ _
  | nothing => exact .pure Value.undefined
  | first => exact .pure _
  | gather => exact newArray_inStep args
  | apply =>
    cases args with
    | nil => exact .pure Value.undefined
    | cons v rest =>
      cases v with
      | object id => exact hi id rest
      | undefined | primitive | array | foreign => exact .pure Value.undefined

/-! ## Evaluation -/

section Constructs

variable {eval : Evaluator} {invoke : ObjectId → List Value → Eval Value}
  {entity : Node → ScopeId → Eval Entity} {control instruction : Node → ScopeId → Eval Unit}

/-- An evaluator that does not look at the cells of objects; `f` moves the objects of a result. -/
abbrev Steps (π : Equiv.Perm ObjectId) (f : α → α) (eval : Node → ScopeId → Eval α) : Prop :=
  ∀ node scope, InStep π f (eval node scope) (eval node scope)

/-- A value that a construct does not apply to is shown in the fault. -/
theorem refuseValue_inStep {f : α → β} (limit : Nat) (v : Value) (fault : String → Fault) :
    InStep π f (do throw (fault (← query (·.format limit v))))
      (do throw (fault (← query (·.format limit (v.renamed π))))) :=
  .next (query_inStep_id fun hs => hs.format limit v) fun text => .throw (fault text)

theorem assignMember_inStep (he : Steps π (Value.renamed π) eval) (limit : Nat) (owner : Node)
    (member : String) (value : Node) (scope : ScopeId) :
    InStep π (Value.renamed π) (assignMember eval limit owner member value scope)
      (assignMember eval limit owner member value scope) := by
  refine (he owner scope).bind fun target => ?_
  cases target with
  | object target =>
    refine .bind (ask_inStep fun hs => hs.properties target) fun properties => ?_
    dsimp only
    rw [Table.get?_mapEntries]
    have written : ∀ p p' : Value → Property, (∀ v, p' (v.renamed π) = (p v).renamed π) →
        InStep π (Value.renamed π)
          (do let v ← eval value scope; change (·.setProperty target member (p v)); return v)
          (do
            let v ← eval value scope
            change (·.setProperty (π target) member (p' v))
            return v) := by
      intro p p' hp
      refine (he value scope).bind fun v => ?_
      rw [hp]
      exact .next (change_inStep fun hs => hs.setProperty target member (p v)) fun _ => .pure v
    cases properties.get? member with
    | none => exact written (fun v => { value := v }) (fun v => { value := v }) fun v => rfl
    | some old =>
      have finish := written (fun v => { old with value := v })
        (fun v => { old.renamed π with value := v }) fun v => rfl
      exact .ite (.next (.throw (Fault.readOnly member)) fun _ => finish) finish
  | undefined | primitive | array | foreign =>
    exact refuseValue_inStep limit _ (Fault.unsettableMember member)

theorem assignName_inStep (he : Steps π (Value.renamed π) eval) (name : String) (value : Node)
    (scope : ScopeId) :
    InStep π (Value.renamed π) (assignName eval name value scope)
      (assignName eval name value scope) := by
  refine (resolve_inStep scope name).bind fun e => ?_
  cases e with
  | var id =>
    exact (he value scope).bind fun v => (assign_inStep id v).next fun _ => .pure v
  | fn | mod => exact .throw (Fault.notAVariable name)

theorem reassignment_inStep (he : Steps π (Value.renamed π) eval) (limit : Nat)
    (target value : Node) (scope : ScopeId) :
    InStep π (Value.renamed π) (reassignment eval limit target value scope)
      (reassignment eval limit target value scope) := by
  cases target with
  | objectAccess line owner member => exact assignMember_inStep he limit owner member value scope
  | identifier line name => exact assignName_inStep he name value scope
  | _ => exact .throw (Fault.unsupportedTarget _)

theorem destructuring_inStep (he : Steps π (Value.renamed π) eval) (limit : Nat)
    (names : List String) (isConst : Bool) (source : Node) (scope : ScopeId) :
    InStep π (Value.renamed π) (destructuring eval limit names isConst source scope)
      (destructuring eval limit names isConst source scope) := by
  refine (he source scope).bind fun v => ?_
  cases v with
  | object id =>
    refine (declareAll_inStep isConst scope (fun hs name => ?_) names).next fun _ =>
      .pure (Value.object id)
    rw [hs.getProperty, Value.detach_renamed]
  | undefined | primitive | array | foreign =>
    exact refuseValue_inStep limit _ Fault.notDestructurable

theorem typeTest?_renamed {s s' : Store} (hs : s.Renamed π s') (node : Node) (scope : ScopeId) :
    typeTest? s' node scope = typeTest? s node scope := by
  cases node with
  | identifier line name => simp only [typeTest?, hs.resolve?, Option.isNone_map]
  | _ => rfl

theorem instanceOf_inStep (he : Steps π (Value.renamed π) eval) (v : Value) (type : Node)
    (scope : ScopeId) :
    InStep π (Value.renamed π) (instanceOf eval v type scope)
      (instanceOf eval (v.renamed π) type scope) := by
  refine .next (ask_inStep fun hs => typeTest?_renamed hs type scope) fun test => ?_
  cases test with
  | some name => exact .next (ask_inStep fun hs => hs.isOfType v name) fun b => .pure (Value.bool b)
  | none =>
    exact (he type scope).bind fun prototype =>
      .next (query_inStep_id fun hs => hs.isInstance v prototype) fun b => .pure (Value.bool b)

theorem binary_inStep (he : Steps π (Value.renamed π) eval) (limit : Nat) (o : Operator)
    (left right : Node) (scope : ScopeId) :
    InStep π (Value.renamed π) (binary eval limit o left right scope)
      (binary eval limit o left right scope) := by
  refine (he left scope).bind fun a => .ite (instanceOf_inStep he a right scope) ?_
  exact (he right scope).bind fun b => query_inStep fun hs => hs.operate limit o a b

theorem callee_inStep (he : Steps π (Value.renamed π) eval) (limit : Nat) (node : Node)
    (scope : ScopeId) :
    InStep π π (callee eval limit node scope) (callee eval limit node scope) := by
  have evaluated : InStep π π
      (do let v ← eval node scope; query (·.asFunction limit v))
      (do let v ← eval node scope; query (·.asFunction limit v)) :=
    (he node scope).bind fun v => query_inStep fun hs => hs.asFunction limit v
  cases node with
  | identifier line name => exact query_inStep fun hs => hs.calleeOf scope name
  | _ => exact evaluated

theorem call_inStep (he : Steps π (Value.renamed π) eval) (hi : CallsInStep π invoke)
    (limit : Nat) (function : Node) (args : List Node) (scope : ScopeId) :
    InStep π (Value.renamed π) (call eval invoke limit function args scope)
      (call eval invoke limit function args scope) := by
  refine (callee_inStep he limit function scope).bind fun callee => ?_
  refine .next (ask_inStep fun hs => by rw [hs.function?, id]) fun isDefined => ?_
  have finish : InStep π (Value.renamed π)
      (do let values ← args.mapM (eval · scope); invoke callee values)
      (do let values ← args.mapM (eval · scope); invoke (π callee) values) :=
    (Follows.mapM (fun node => he node scope) args).bind fun values => hi callee values
  exact .ite (.next (query_inStep_id fun hs => hs.checkArity callee args.length) fun _ => finish)
    finish

theorem entries_inStep (he : Steps π (Value.renamed π) eval) (scope : ScopeId) :
    ∀ (pairs : List (String × Node)) (found : Table Property),
      InStep π (Table.mapEntries (Property.renamed π)) (entries eval scope pairs found)
        (entries eval scope pairs (found.mapEntries (Property.renamed π)))
  | [], found => .pure found
  | (key, node) :: rest, found => by
    refine (he node scope).bind fun v => ?_
    have hput := found.put_mapEntries (Property.renamed π) key { value := v }
    have hrest := entries_inStep he scope rest (found.put key { value := v })
    rwa [← hput] at hrest

theorem valueOf_inStep (he : Steps π (Value.renamed π) eval) (hi : CallsInStep π invoke)
    (limit : Nat) : Steps π (Value.renamed π) (valueOf eval invoke limit) := by
  intro node scope
  cases node with
  | functionExpr line params body result name =>
    exact (newClosure_inStep name false _).bind fun id => .pure (Value.object id)
  | reassignment line target value => exact reassignment_inStep he limit target value scope
  | moduleAccess line path name =>
    rw [valueOf]
    refine query_inStep fun {s s'} hs => ?_
    rw [hs.pathModule scope limit path]
    cases s.pathModule scope limit path with
    | error fault => rfl
    | ok m =>
      show (do s'.entityValue (← s'.member m name) name) =
        (do s.entityValue (← s.member m name) name : Except Fault Value).map (Value.renamed π)
      rw [hs.member]
      cases s.member m name with
      | error fault => rfl
      | ok e => exact hs.entityValue e name
  | destructuring line names isConst source =>
    exact destructuring_inStep he limit names isConst source scope
  | objectAccess line target member =>
    exact (he target scope).bind fun v => query_inStep fun hs => hs.readMember limit v member
  | binary line o left right => exact binary_inStep he limit o left right scope
  | call line function args => exact call_inStep he hi limit function args scope
  | identifier line name =>
    exact (resolve_inStep scope name).bind fun e => query_inStep fun hs => hs.entityValue e name
  | object line pairs =>
    exact (entries_inStep he scope pairs []).bind fun properties => newObject_inStep none properties
  | array line elements =>
    exact (Follows.mapM (fun node => he node scope) elements).bind fun values =>
      newArray_inStep values
  | char line text =>
    rw [valueOf]
    split
    · exact .pure (Value.char _)
    · exact .throw (Fault.notOneCharacter text)
  | string line text => exact .pure (Value.string text)
  | integer line n => exact .pure (Value.int n)
  | float line x => exact .pure (Value.float x)
  | bool line b => exact .pure (Value.bool b)
  | undefined line => exact .pure Value.undefined
  | functionDecl | moduleDecl | variableDecl | conditional | unknown =>
    exact .throw (Fault.unsupportedNode _)

theorem declarations_inStep (hn : Steps π (Entity.renamed π) entity) (scope : ScopeId) :
    ∀ nodes, InStep π id (declarations entity scope nodes) (declarations entity scope nodes)
  | [] => .pure ()
  | node :: rest =>
    (hn node scope).bind fun e => (declare_inStep e scope).next fun _ =>
      declarations_inStep hn scope rest

theorem entityOf_inStep (he : Steps π (Value.renamed π) eval)
    (hn : Steps π (Entity.renamed π) entity) :
    Steps π (Entity.renamed π) (entityOf eval entity) := by
  intro node scope
  cases node with
  | functionDecl line name params body result isExported =>
    exact (newClosure_inStep name isExported _).bind fun id => .pure (Entity.fn id)
  | moduleDecl line name body isExported =>
    exact (newScope_inStep ..).next fun own => (declarations_inStep hn own body).next fun _ =>
      .pure (Entity.mod _)
  | variableDecl line name isConst value isExported =>
    exact (he value scope).bind fun v => newVariable_inStep name isConst v isExported
  | _ => exact .throw (Fault.unsupportedNode _)

theorem instructions_inStep (hx : Steps π id instruction) (scope : ScopeId) :
    ∀ nodes, InStep π id (instructions instruction scope nodes)
      (instructions instruction scope nodes)
  | [] => .pure ()
  | node :: rest => (hx node scope).next fun _ => instructions_inStep hx scope rest

theorem controlOf_inStep (he : Steps π (Value.renamed π) eval) (hx : Steps π id instruction) :
    Steps π id (controlOf eval instruction) := by
  intro node scope
  cases node with
  | conditional line condition body elseBody =>
    refine (he condition scope).bind fun v => ?_
    rw [Value.truthy_renamed]
    cases if v.truthy then some body else elseBody with
    | none => exact .pure ()
    | some branch =>
      exact .next (ask_inStep fun hs => hs.owner scope) fun owner =>
        (newScope_inStep ..).next fun own => instructions_inStep hx own branch
  | _ => exact note_inStep _ _

theorem instructionOf_inStep (he : Steps π (Value.renamed π) eval)
    (hn : Steps π (Entity.renamed π) entity) (hc : Steps π id control) :
    Steps π id (instructionOf eval entity control) := by
  intro node scope
  unfold instructionOf
  split
  · exact (he node scope).bind fun _ => .pure ()
  · exact hc node scope
  · exact (hn node scope).bind fun e => (declare_inStep e scope).next fun _ =>
      .next (ask_inStep fun hs => hs.entityName e) fun _ =>
        .next (ask_inStep fun hs => hs.owner scope) fun _ => note_inStep _ _
  · exact .throw (Fault.unsupportedNode _)

theorem callClosure_inStep (he : Steps π (Value.renamed π) eval) (hx : Steps π id instruction)
    (name : String) (c : Closure) (args : List Value) :
    InStep π (Value.renamed π) (callClosure eval instruction name c args)
      (callClosure eval instruction name c (args.map (Value.renamed π))) := by
  refine (bindArguments_inStep name c args).next fun scope =>
    (instructions_inStep hx scope c.body).next fun _ => (checkEscape_inStep name c scope).next
      fun _ => ?_
  split
  · exact .pure Value.undefined
  · exact he c.result scope

theorem invokeOf_inStep (he : Steps π (Value.renamed π) eval) (hx : Steps π id instruction)
    (hi : CallsInStep π invoke) (limit : Nat) :
    CallsInStep π (invokeOf eval instruction invoke limit) := by
  intro id args
  unfold invokeOf
  rw [List.length_map]
  refine .next (query_inStep_id fun hs => hs.checkArity id args.length) fun _ => ?_
  refine .next (ask_inStep fun hs => hs.function? id) fun f => ?_
  cases f with
  | none => exact .pure Value.undefined
  | some f =>
    refine (note_inStep _ _).next fun _ => ?_
    cases f.callable with
    | native action arity => exact native_inStep hi limit action args
    | closure c => exact callClosure_inStep he hx f.name c args
    | hollow => exact .pure Value.undefined

end Constructs

/-! ## The five evaluators -/

/-- The five evaluators at a nesting depth. -/
structure EvaluatorsInStep (π : Equiv.Perm ObjectId) (depth : Nat) : Prop where
  value : Steps π (Value.renamed π) (value depth)
  entity : Steps π (Entity.renamed π) (entity depth)
  control : Steps π id (control depth)
  instruction : Steps π id (instruction depth)
  invoke : CallsInStep π (invoke depth)

theorem evaluatorsInStep (π : Equiv.Perm ObjectId) : ∀ depth, EvaluatorsInStep π depth
  | 0 =>
    { value := fun _ _ => .throw Fault.overflow
      entity := fun _ _ => .throw Fault.overflow
      control := fun _ _ => .throw Fault.overflow
      instruction := fun _ _ => .throw Fault.overflow
      invoke := fun _ _ => .throw Fault.overflow }
  | depth + 1 =>
    have ih := evaluatorsInStep π depth
    { value := valueOf_inStep ih.value ih.invoke depth
      entity := entityOf_inStep ih.value ih.entity
      control := controlOf_inStep ih.value ih.instruction
      instruction := instructionOf_inStep ih.value ih.entity ih.control
      invoke := invokeOf_inStep ih.value ih.instruction ih.invoke depth }

end Eval

end Scriptlet
