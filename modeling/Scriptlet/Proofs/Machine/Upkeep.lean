import Mathlib.Data.List.Nodup
import Scriptlet.Machine.Run
import Scriptlet.Proofs.Machine.Effect

/-!
# Invariants of the store

However an evaluator is written, there are only so many ways in which it changes a cell.
`Upkeep I E` says that none of them breaks the invariant `I`, and `evaluatorsUphold` that then no
evaluation does: one walk over all constructs serves every invariant of that kind.

Two of the ways are not free. The tables of new objects have no name twice. And an entity is
declared where it was made, with nothing in between: `E` is what can be said of the entity at that
moment, such as that no scope has it yet.

`Upholds I act P` : the action keeps up the invariant, whatever happens, and its result satisfies
`P`. Nothing else has to be known of the machine or of the tree, so the rules are simpler than those
of `Does`.
-/

namespace Scriptlet

theorem Table.nodup_keys_put {β : Type} {t : Table β} (h : t.keys.Nodup) (name : String)
    (entry : β) : (t.put name entry).keys.Nodup := by
  rw [keys_put]
  split
  · exact h
  · next hnew =>
    refine List.nodup_append.mpr ⟨h, List.nodup_singleton name, ?_⟩
    rintro key hkey _ hname rfl
    rw [List.mem_singleton] at hname
    subst hname
    exact hnew ((contains_iff_mem_keys _ _).mpr hkey)

/-- What evaluation does to a store does not break `I`. A new entity satisfies `E`, and so may be
declared. -/
structure Upkeep (I : Store → Prop) (E : Entity → Store → Prop) : Prop where
  addScope : ∀ {s} owner parent, I s → I (s.addScope owner parent).2
  addVariable : ∀ {s} x, I s → I (s.addVariable x).2
  addObject : ∀ {s} (o : Object), o.properties.keys.Nodup → I s → I (s.addObject o).2
  addArray : ∀ {s} items, I s → I (s.addArray items).2
  addBox : ∀ {s}, I s → I s.addBox.2
  newVariable : ∀ {s} x, I s → E (.var (s.addVariable x).1) (s.addVariable x).2
  newFunction : ∀ s id, E (.fn id) s
  newModule : ∀ s m, E (.mod m) s
  bind : ∀ {s} scope name e, E e s → I s → I (s.bind scope name e)
  drop : ∀ {s} scope keep, I s → I (s.modifyEntries scope (·.filter keep))
  setVariable : ∀ {s} id v, I s → I (s.setVariable id v)
  setProperty : ∀ {s} id name p, I s → I (s.setProperty id name p)
  setPrototype : ∀ {s} id prototype, I s → I (s.setPrototype id prototype)
  pushElement : ∀ {s} id v, I s → I (s.pushElement id v)

/-- What holds of the store of the one machine holds of that of the other. -/
def Machine.Retains (I : Store → Prop) (m m' : Machine) : Prop := I m.store → I m'.store

instance (I : Store → Prop) : Std.Refl (Machine.Retains I) := ⟨fun _ h => h⟩

instance (I : Store → Prop) : IsTrans Machine (Machine.Retains I) :=
  ⟨fun _ _ _ h h' hm => h' (h hm)⟩

namespace Eval

variable {α β : Type} {I : Store → Prop} {E : Entity → Store → Prop}

/-- From every machine with the invariant the action keeps it up, and its result satisfies `P`. -/
structure Upholds (I : Store → Prop) (act : Eval α) (P : α → Store → Prop) : Prop where
  obeys : ∀ m : Machine, I m.store →
    Obeys (Machine.Retains I) (fun _ => True) m act fun a m' => P a m'.store

/-- Anything may come of an action. -/
abbrev whatever : α → Store → Prop := fun _ _ => True

namespace Upholds

variable {act : Eval α} {rest : α → Eval β} {P : α → Store → Prop} {Q : β → Store → Prop}

/-- What holds of an action that ended well. -/
theorem of_ok {m m' : Machine} {a : α} (h : Upholds I act P) (hm : I m.store)
    (hr : act m = .ok a m') : I m'.store ∧ P a m'.store := by
  obtain ⟨hretains, ha⟩ := (h.obeys m hm).of_ok hr
  exact ⟨hretains hm, ha⟩

theorem pure {a : α} (h : ∀ s, P a s) : Upholds I (Pure.pure a) P :=
  ⟨fun m _ => Obeys.pure (h m.store)⟩

/-- A result of which nothing needs to be known. -/
theorem done (a : α) : Upholds I (Pure.pure a) whatever := pure fun _ => trivial

theorem throw (f : Fault) : Upholds I (MonadExcept.throw f : Eval α) P :=
  ⟨fun _ _ => Obeys.throw trivial⟩

/-- One action after another. The second begins where the first ended. -/
theorem bind (h : Upholds I act P)
    (hr : ∀ a m, I m.store → P a m.store →
      Obeys (Machine.Retains I) (fun _ => True) m (rest a) fun b m' => Q b m'.store) :
    Upholds I (act >>= rest) Q :=
  ⟨fun m hm => Obeys.bind (h.obeys m hm) fun a m' hr' ha => hr a m' (hr' hm) ha⟩

/-- One action after another, of whose result nothing needs to be known. -/
theorem next (h : Upholds I act P) (hr : ∀ a, Upholds I (rest a) Q) :
    Upholds I (act >>= rest) Q :=
  h.bind fun a m hm _ => (hr a).obeys m hm

theorem mapM {f : α → Eval β} (items : List α) (h : ∀ a, Upholds I (f a) whatever) :
    Upholds I (items.mapM f) whatever := by
  constructor
  intro m hm
  refine (Obeys.mapM (P := fun _ _ => True) (fun _ _ _ _ _ => trivial) items m ?_).mono
    fun _ _ _ _ => trivial
  exact fun a _ m' hr => (h a).obeys m' (hr hm)

theorem ask (f : Store → α) : Upholds I (Eval.ask f) whatever :=
  ⟨fun m _ => ⟨refl (r := Machine.Retains I) m, trivial⟩⟩

theorem query (f : Store → Except Fault α) : Upholds I (Eval.query f) whatever := by
  constructor
  intro m _
  refine Obeys.bind (P := fun _ _ => True) (Obeys.get trivial) ?_
  intro m' _ _ _
  cases f m'.store with
  | ok a => exact Obeys.pure trivial
  | error e => exact Obeys.throw trivial

theorem change {f : Store → Store} (h : ∀ s, I s → I (f s)) :
    Upholds I (Eval.change f) whatever := ⟨fun m _ => ⟨h m.store, trivial⟩⟩

theorem guarded {check : Store → Except Fault Unit} {f : Store → Store}
    (h : ∀ s, I s → I (f s)) : Upholds I (Eval.guarded check f) whatever :=
  (query check).next fun _ => change h

theorem add {f : Store → α × Store} (h : ∀ s, I s → I (f s).2)
    (hP : ∀ s, I s → P (f s).1 (f s).2) : Upholds I (Eval.add f) P :=
  ⟨fun m hm => ⟨h m.store, hP m.store hm⟩⟩

theorem note (e : Event) : Upholds I (Eval.note e) whatever := by
  constructor
  intro m _
  show (I m.store → I (m.noted e).store) ∧ True
  rw [Machine.noted_store]
  exact ⟨fun h => h, trivial⟩

theorem print (text : String) : Upholds I (Eval.print text) whatever :=
  ⟨fun _ _ => ⟨fun h => h, trivial⟩⟩

end Upholds

/-! ## What changes no cell itself -/

section

variable {eval : Evaluator} {invoke : ObjectId → List Value → Eval Value}
  {instruction : Node → ScopeId → Eval Unit}

theorem refuse_upholds (native wants : String) (given : List Value) :
    Upholds I (Native.refuse native wants given : Eval α) whatever :=
  (Upholds.ask _).next fun _ => .throw _

theorem prototypeArg_upholds (native : String) (v : Value) :
    Upholds I (Native.prototypeArg native v) whatever := by
  unfold Native.prototypeArg
  split
  · exact .done _
  · exact .done _
  · exact refuse_upholds ..

theorem binary_upholds (he : ∀ node scope, Upholds I (eval node scope) whatever) (limit : Nat)
    (o : Operator) (left right : Node) (scope : ScopeId) :
    Upholds I (binary eval limit o left right scope) whatever := by
  refine (he ..).next ?_
  intro a
  split
  · refine (Upholds.ask _).next ?_
    intro test
    split
    · exact (Upholds.ask _).next fun _ => .done _
    · exact (he ..).next fun _ => (Upholds.query _).next fun _ => .done _
  · exact (he ..).next fun _ => .query _

theorem call_upholds (he : ∀ node scope, Upholds I (eval node scope) whatever)
    (hi : ∀ id args, Upholds I (invoke id args) whatever) (limit : Nat) (function : Node)
    (args : List Node) (scope : ScopeId) :
    Upholds I (call eval invoke limit function args scope) whatever := by
  have hcallee : Upholds I (callee eval limit function scope) whatever := by
    unfold callee
    split
    · exact .query _
    · exact (he ..).next fun _ => .query _
  have finish : ∀ id,
      Upholds I (do let values ← args.mapM (eval · scope); invoke id values) whatever :=
    fun id => (Upholds.mapM args fun node => he node scope).next fun _ => hi id _
  refine hcallee.next fun id => (Upholds.ask _).next ?_
  intro defined
  dsimp only
  split
  · exact (Upholds.query _).next fun _ => finish id
  · exact finish id

/-- The entries of an object literal are written one by one. -/
theorem entries_upholds (he : ∀ node scope, Upholds I (eval node scope) whatever)
    (scope : ScopeId) :
    ∀ (pairs : List (String × Node)) (found : Table Property), found.keys.Nodup →
      Upholds I (entries eval scope pairs found) fun t _ => t.keys.Nodup
  | [], _, hfound => .pure fun _ => hfound
  | (key, node) :: rest, _, hfound =>
    (he node scope).next fun _ =>
      entries_upholds he scope rest _ (Table.nodup_keys_put hfound key _)

theorem instructions_upholds (hx : ∀ node scope, Upholds I (instruction node scope) whatever)
    (scope : ScopeId) : ∀ nodes, Upholds I (instructions instruction scope nodes) whatever
  | [] => .done ()
  | node :: rest => (hx node scope).next fun _ => instructions_upholds hx scope rest

end

section

variable (U : Upkeep I E)
include U

/-! ## Cells -/

theorem newScope_upholds (owner : String) (parent : Option ScopeId) :
    Upholds I (newScope owner parent) whatever :=
  .add (fun _ => U.addScope owner parent) fun _ _ => trivial

theorem newVariable_upholds (name : String) (isConst : Bool) (v : Value) (isExported : Bool) :
    Upholds I (newVariable name isConst v isExported) E := by
  refine (Upholds.add (P := fun id => E (.var id)) (fun _ => U.addVariable _)
    fun _ => U.newVariable _).bind ?_
  exact fun id m _ he => Obeys.pure he

theorem newObject_upholds (prototype : Option ObjectId) {t : Table Property} (h : t.keys.Nodup) :
    Upholds I (newObject prototype t) whatever := by
  refine Upholds.next (P := whatever) ?_ fun _ => .done _
  exact .add (fun _ => U.addObject _ h) fun _ _ => trivial

theorem newArray_upholds (items : List Value) : Upholds I (newArray items) whatever := by
  refine Upholds.next (P := whatever) ?_ fun _ => .done _
  exact .add (fun _ => U.addArray _) fun _ _ => trivial

theorem newFunction_upholds (f : Function) : Upholds I (newFunction f) whatever :=
  .add (fun _ => U.addObject _ List.nodup_nil) fun _ _ => trivial

theorem newClosure_upholds (name : String) (isExported : Bool) (c : Closure) :
    Upholds I (newClosure name isExported c) whatever := by
  unfold newClosure
  split
  · exact (Upholds.throw (P := whatever) _).next fun _ => newFunction_upholds U _
  · exact newFunction_upholds U _

/-! ## Declarations -/

/-- An entity may be declared where it was made. -/
theorem declare_obeys {m : Machine} {e : Entity} (he : E e m.store) (scope : ScopeId) :
    Obeys (Machine.Retains I) (fun _ => True) m (declare e scope) fun _ _ => True := by
  show Obeys _ _ m (Eval.guarded (·.checkFree scope (m.store.entityName e)) _) _
  unfold Obeys Eval.guarded
  cases hcheck : m.store.checkFree scope (m.store.entityName e) with
  | ok _ =>
    rw [bind_ok (Does.query_ok hcheck)]
    exact ⟨U.bind scope _ e he, trivial⟩
  | error f =>
    rw [bind_error (Does.query_error hcheck)]
    exact ⟨fun h => h, trivial⟩

theorem introduce_obeys {m : Machine} {e : Entity} (he : E e m.store) (scope : ScopeId)
    (name : String) :
    Obeys (Machine.Retains I) (fun _ => True) m (introduce scope name e) fun _ _ => True := by
  show Obeys _ _ m (if m.store.isFree scope name then _ else _) _
  split
  · exact ⟨U.bind scope name e he, trivial⟩
  · exact Obeys.pure trivial

/-- An entity that is declared as soon as it is made. -/
theorem declared_upholds {make : Eval Entity} (h : Upholds I make E) (scope : ScopeId)
    {rest : Entity → Eval β} {Q : β → Store → Prop} (hr : ∀ e, Upholds I (rest e) Q) :
    Upholds I (do let e ← make; declare e scope; rest e) Q := by
  refine h.bind ?_
  intro e m hm he
  exact Obeys.bind (declare_obeys U he scope) fun _ m' hm' _ => (hr e).obeys m' (hm' hm)

theorem declareAll_upholds (isConst : Bool) (scope : ScopeId) (value : Store → String → Value) :
    ∀ names, Upholds I (declareAll isConst scope value names) whatever
  | [] => .done ()
  | _ :: rest =>
    (Upholds.ask _).next fun _ => declared_upholds U (newVariable_upholds U ..) scope
      fun _ => declareAll_upholds isConst scope value rest

theorem bindParameter_upholds (scope : ScopeId) (name : String) (isConst : Bool) (v : Value) :
    Upholds I (bindParameter scope name isConst v) whatever := by
  refine (newVariable_upholds U ..).bind ?_
  intro e m _ he
  exact Obeys.bind (introduce_obeys U he scope name) fun _ _ _ _ => Obeys.pure trivial

theorem bindPositional_upholds (scope : ScopeId) :
    ∀ params args, Upholds I (bindPositional scope params args) whatever
  | [], _ => .done ()
  | _ :: _, [] => .done ()
  | _ :: params, _ :: args =>
    (bindParameter_upholds U ..).next fun _ => bindPositional_upholds scope params args

theorem bindArguments_upholds (name : String) (c : Closure) (args : List Value) :
    Upholds I (bindArguments name c args) whatever := by
  refine (newScope_upholds U ..).next fun scope => (bindPositional_upholds U ..).next fun _ => ?_
  cases c.rest? with
  | none => exact .done scope
  | some p =>
    exact (newArray_upholds U _).next
      fun _ => (bindParameter_upholds U ..).next fun _ => .done scope

/-! ## Natives -/

theorem native_upholds {invoke : ObjectId → List Value → Eval Value}
    (hi : ∀ id args, Upholds I (invoke id args) whatever) (limit : Nat) (native : Native)
    (args : List Value) : Upholds I (native.run invoke limit args) whatever := by
  cases native with
  | print => exact (Upholds.query _).next fun _ => (Upholds.print _).next fun _ => .done _
  | len =>
    show Upholds I (Native.runLen _) _
    unfold Native.runLen
    split
    · exact .done _
    · exact (Upholds.ask _).next fun _ => .done _
    · exact (Upholds.ask _).next fun _ => .done _
    · exact refuse_upholds ..
  | push =>
    show Upholds I (Native.runPush _ _) _
    unfold Native.runPush
    split
    · exact (Upholds.change fun _ => U.pushElement _ _).next fun _ => (Upholds.ask _).next
        fun _ => .done _
    · exact refuse_upholds ..
  | «at» =>
    show Upholds I (Native.runAt _ _) _
    unfold Native.runAt
    split
    · exact .ask _
    · exact refuse_upholds ..
  | keys =>
    show Upholds I (Native.runKeys _) _
    unfold Native.runKeys
    split
    · exact (Upholds.ask _).next fun _ => newArray_upholds U _
    · exact refuse_upholds ..
  | typeOf => exact (Upholds.ask _).next fun _ => .done _
  | create => exact (prototypeArg_upholds ..).next fun p => newObject_upholds U p List.nodup_nil
  | setPrototype =>
    show Upholds I (Native.runSetPrototype _ _) _
    unfold Native.runSetPrototype
    split
    · exact (prototypeArg_upholds ..).next fun p =>
        (Upholds.guarded fun _ => U.setPrototype _ p).next fun _ => .done _
    · exact refuse_upholds ..
  | nothing => exact .done _
  | first => exact .done _
  | gather => exact newArray_upholds U _
  | apply =>
    unfold Native.run
    dsimp only
    split
    · exact hi _ _
    · exact .done _

/-! ## Evaluation -/

section Constructs

variable {eval : Evaluator} {invoke : ObjectId → List Value → Eval Value}
  {entity : Node → ScopeId → Eval Entity} {control instruction : Node → ScopeId → Eval Unit}

theorem reassignment_upholds (he : ∀ node scope, Upholds I (eval node scope) whatever)
    (limit : Nat) (target value : Node) (scope : ScopeId) :
    Upholds I (reassignment eval limit target value scope) whatever := by
  unfold reassignment
  split
  · refine (he ..).next ?_
    intro v
    split
    · refine (Upholds.ask _).next fun _ => ?_
      dsimp only
      split
      · exact .throw _
      · exact (he ..).next fun _ => (Upholds.change fun _ => U.setProperty _ _ _).next
          fun _ => .done _
    · exact (Upholds.query _).next fun _ => .throw _
  · refine (Upholds.query _).next ?_
    intro e
    split
    · exact (he ..).next fun _ => (Upholds.guarded fun _ => U.setVariable _ _).next
        fun _ => .done _
    · exact .throw _
  · exact .throw _

theorem destructuring_upholds (he : ∀ node scope, Upholds I (eval node scope) whatever)
    (limit : Nat) (names : List String) (isConst : Bool) (source : Node) (scope : ScopeId) :
    Upholds I (destructuring eval limit names isConst source scope) whatever := by
  refine (he ..).next ?_
  intro v
  split
  · exact (declareAll_upholds U ..).next fun _ => .done _
  · exact (Upholds.query _).next fun _ => .throw _

theorem valueOf_upholds (he : ∀ node scope, Upholds I (eval node scope) whatever)
    (hi : ∀ id args, Upholds I (invoke id args) whatever) (limit : Nat) (node : Node)
    (scope : ScopeId) : Upholds I (valueOf eval invoke limit node scope) whatever := by
  cases node with
  | functionExpr => exact (newClosure_upholds U ..).next fun _ => .done _
  | reassignment => exact reassignment_upholds U he ..
  | moduleAccess =>
    rw [valueOf]
    exact .query _
  | destructuring => exact destructuring_upholds U he ..
  | objectAccess => exact (he ..).next fun _ => .query _
  | binary => exact binary_upholds he ..
  | call => exact call_upholds he hi ..
  | identifier => exact (Upholds.query _).next fun _ => .query _
  | object line pairs =>
    exact (entries_upholds he scope pairs [] List.nodup_nil).bind fun t m hm ht =>
      (newObject_upholds U none ht).obeys m hm
  | array line elements =>
    exact (Upholds.mapM elements fun node => he node scope).next fun _ => newArray_upholds U _
  | char line text =>
    rw [valueOf]
    split
    · exact .done _
    · exact .throw _
  | string | integer | float | bool | undefined => exact .done _
  | functionDecl | moduleDecl | variableDecl | conditional | unknown => exact .throw _

theorem declarations_upholds (hn : ∀ node scope, Upholds I (entity node scope) E)
    (scope : ScopeId) : ∀ nodes, Upholds I (declarations entity scope nodes) whatever
  | [] => .done ()
  | node :: rest =>
    declared_upholds U (hn node scope) scope fun _ => declarations_upholds hn scope rest

/-- Making the entity is the last thing that the evaluation of a declaration does. -/
theorem entityOf_upholds (he : ∀ node scope, Upholds I (eval node scope) whatever)
    (hn : ∀ node scope, Upholds I (entity node scope) E) (node : Node) (scope : ScopeId) :
    Upholds I (entityOf eval entity node scope) E := by
  unfold entityOf
  split
  · exact (newClosure_upholds U ..).next fun id => .pure fun s => U.newFunction s id
  · exact (newScope_upholds U ..).next fun own => (declarations_upholds U hn own _).next fun _ =>
      .pure fun s => U.newModule s _
  · exact (he ..).next fun _ => newVariable_upholds U ..
  · exact .throw _

theorem controlOf_upholds (he : ∀ node scope, Upholds I (eval node scope) whatever)
    (hx : ∀ node scope, Upholds I (instruction node scope) whatever) (node : Node)
    (scope : ScopeId) : Upholds I (controlOf eval instruction node scope) whatever := by
  unfold controlOf
  split
  · refine (he ..).next ?_
    intro v
    split
    · exact .done ()
    · exact (Upholds.ask _).next fun _ => (newScope_upholds U ..).next fun own =>
        instructions_upholds hx own _
  · exact .note _

theorem instructionOf_upholds (he : ∀ node scope, Upholds I (eval node scope) whatever)
    (hn : ∀ node scope, Upholds I (entity node scope) E)
    (hc : ∀ node scope, Upholds I (control node scope) whatever) (node : Node)
    (scope : ScopeId) : Upholds I (instructionOf eval entity control node scope) whatever := by
  unfold instructionOf
  split
  · exact (he ..).next fun _ => .done ()
  · exact hc node scope
  · exact declared_upholds U (hn ..) scope fun e => (Upholds.ask _).next fun _ =>
      (Upholds.ask _).next fun _ => .note _
  · exact .throw _

theorem invokeOf_upholds (he : ∀ node scope, Upholds I (eval node scope) whatever)
    (hx : ∀ node scope, Upholds I (instruction node scope) whatever)
    (hi : ∀ id args, Upholds I (invoke id args) whatever) (limit : Nat) (id : ObjectId)
    (args : List Value) :
    Upholds I (invokeOf eval instruction invoke limit id args) whatever := by
  refine (Upholds.query _).next fun _ => (Upholds.ask _).next ?_
  intro o
  split
  · exact .done _
  · refine (Upholds.note _).next fun _ => ?_
    split
    · exact native_upholds U hi limit _ args
    · refine (bindArguments_upholds U ..).next fun scope => ?_
      refine (instructions_upholds hx scope _).next fun _ => (Upholds.query _).next fun _ => ?_
      split
      · exact .done _
      · exact he ..
    · exact .done _

end Constructs

end

/-- The five evaluators keep up an invariant at a nesting depth. -/
structure EvaluatorsUphold (I : Store → Prop) (E : Entity → Store → Prop) (depth : Nat) :
    Prop where
  value : ∀ node scope, Upholds I (value depth node scope) whatever
  entity : ∀ node scope, Upholds I (entity depth node scope) E
  control : ∀ node scope, Upholds I (control depth node scope) whatever
  instruction : ∀ node scope, Upholds I (instruction depth node scope) whatever
  invoke : ∀ id args, Upholds I (invoke depth id args) whatever

theorem evaluatorsUphold (U : Upkeep I E) : ∀ depth, EvaluatorsUphold I E depth
  | 0 =>
    { value := fun _ _ => .throw _
      entity := fun _ _ => .throw _
      control := fun _ _ => .throw _
      instruction := fun _ _ => .throw _
      invoke := fun _ _ => .throw _ }
  | depth + 1 =>
    have ih := evaluatorsUphold U depth
    { value := valueOf_upholds U ih.value ih.invoke depth
      entity := entityOf_upholds U ih.value ih.entity
      control := controlOf_upholds U ih.value ih.instruction
      instruction := instructionOf_upholds U ih.value ih.entity ih.control
      invoke := invokeOf_upholds U ih.value ih.instruction ih.invoke depth }

end Eval

end Scriptlet
