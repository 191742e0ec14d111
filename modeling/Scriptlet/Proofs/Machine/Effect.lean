import Scriptlet.Machine.Call
import Scriptlet.Machine.Native
import Scriptlet.Proofs.Action
import Scriptlet.Proofs.Store.Answer

/-!
# The effect of an action

`Does π m act P` : from the machine `m`, whose store is sound, the action changes the store by steps
that `π` permits, whatever happens, and ends in a result with `P` or in a fault that `π` admits.

The rules are one for each way to make an action, and one for each action on a single cell. What is
known of a store is known of every later one, so the rule for two actions in a row hands on that the
first led from the one store to the other.
-/

namespace Scriptlet

/-- The store of the one machine becomes that of the other by permitted steps. -/
def Machine.Moves (π : Permit) (m m' : Machine) : Prop := Changes π m.store m'.store

instance (π : Permit) : Std.Refl (Machine.Moves π) := ⟨fun m => refl (r := Changes π) m.store⟩

instance (π : Permit) : IsTrans Machine (Machine.Moves π) :=
  ⟨fun _ _ _ h h' => IsTrans.trans (r := Changes π) _ _ _ h h'⟩

namespace Eval

variable {π : Permit} {m : Machine} {α β : Type}

/-- The action changes a sound store as permitted and ends as described. -/
def Does (π : Permit) (m : Machine) (act : Eval α) (P : α → Store → Prop) : Prop :=
  m.store.Sound π → Obeys (Machine.Moves π) π.Admits m act fun a m' => P a m'.store

namespace Does

/-- The store may be taken to be sound. -/
theorem of_sound {act : Eval α} {P : α → Store → Prop} (h : m.store.Sound π → Does π m act P) :
    Does π m act P := fun hs => h hs hs

theorem mono {act : Eval α} {P Q : α → Store → Prop} (h : Does π m act P)
    (hP : ∀ a s, Changes π m.store s → P a s → Q a s) : Does π m act Q :=
  fun hs => (h hs).mono fun a m' hm ha => hP a m'.store hm ha

theorem pure {P : α → Store → Prop} {a : α} (h : P a m.store) : Does π m (Pure.pure a) P :=
  fun _ => Obeys.pure h

theorem throw {P : α → Store → Prop} {f : Fault} (h : π.Admits f) :
    Does π m (MonadExcept.throw f : Eval α) P := fun _ => Obeys.throw h

theorem bind {act : Eval α} {next : α → Eval β} {P : α → Store → Prop} {Q : β → Store → Prop}
    (h : Does π m act P)
    (hn : ∀ a m', Changes π m.store m'.store → P a m'.store → Does π m' (next a) Q) :
    Does π m (act >>= next) Q := by
  intro hs
  refine Obeys.bind (h hs) ?_
  intro a m' hm ha
  exact hn a m' hm ha (hm.sound hs)

/-- A result that is changed on the way out. -/
theorem map {act : Eval α} {f : α → β} {P : α → Store → Prop} {Q : β → Store → Prop}
    (h : Does π m act P) (hQ : ∀ a s, P a s → Q (f a) s) :
    Does π m (do return f (← act)) Q :=
  bind h fun a m' _ ha => pure (hQ a m'.store ha)

theorem mapM {f : α → Eval β} {P : β → Store → Prop}
    (stable : ∀ b s s', Changes π s s' → P b s → P b s') (items : List α)
    (h : ∀ a ∈ items, ∀ m', Changes π m.store m'.store → Does π m' (f a) P) :
    Does π m (items.mapM f) fun bs s => ∀ b ∈ bs, P b s := by
  intro hs
  refine Obeys.mapM (fun b s s' hm hb => stable b s.store s'.store hm hb) items m ?_
  intro a ha m' hm
  exact h a ha m' hm (Changes.sound hm hs)

/-! ## Questions -/

/-- A question to the store leaves the machine as it is. -/
theorem ask_bind {f : Store → α} {next : α → Eval β} {Q : β → Store → Prop}
    (h : Does π m (next (f m.store)) Q) : Does π m (ask f >>= next) Q := h

theorem ask {f : Store → α} {P : α → Store → Prop} (h : P (f m.store) m.store) :
    Does π m (Eval.ask f) P := fun _ => ⟨refl (r := Changes π) m.store, h⟩

theorem query_ok {f : Store → Except Fault α} {a : α} (h : f m.store = .ok a) :
    Eval.query f m = .ok a m := by
  have hget : (get : Eval Machine) m = .ok m m := rfl
  rw [Eval.query, bind_ok hget, h]
  rfl

theorem query_error {f : Store → Except Fault α} {e : Fault} (h : f m.store = .error e) :
    Eval.query f m = .error e m := by
  have hget : (get : Eval Machine) m = .ok m m := rfl
  rw [Eval.query, bind_ok hget, h]
  rfl

theorem query_bind {f : Store → Except Fault α} {next : α → Eval β} {P : α → Prop}
    {Q : β → Store → Prop} (h : m.store.Sound π → Answers π (f m.store) P)
    (hn : ∀ a, f m.store = .ok a → P a → Does π m (next a) Q) :
    Does π m (query f >>= next) Q := by
  intro hs
  have answer := h hs
  show Obeys _ _ m (EStateM.bind (query f) next) _
  unfold Obeys EStateM.bind
  cases hf : f m.store with
  | ok a =>
    rw [hf] at answer
    rw [query_ok hf]
    exact hn a hf answer hs
  | error e =>
    rw [hf] at answer
    rw [query_error hf]
    exact ⟨refl (r := Changes π) m.store, answer⟩

theorem query {f : Store → Except Fault α} {P : α → Store → Prop}
    (h : m.store.Sound π → Answers π (f m.store) (P · m.store)) : Does π m (Eval.query f) P := by
  have hb : Does π m (Eval.query f >>= Pure.pure) P := query_bind h fun a _ ha => pure ha
  rwa [bind_pure] at hb

/-! ## Changes -/

theorem change {f : Store → Store} {P : Unit → Store → Prop}
    (h : m.store.Sound π → Change π m.store (f m.store)) (hP : P () (f m.store)) :
    Does π m (Eval.change f) P := fun hs => ⟨(h hs).changes, hP⟩

/-- A change that a check comes before is made if the check does not refuse. -/
theorem guarded {check : Store → Except Fault Unit} {f : Store → Store} {P : Unit → Store → Prop}
    (hc : ∀ e, check m.store = .error e → π.Admits e)
    (h : check m.store = .ok () → m.store.Sound π → Change π m.store (f m.store))
    (hP : P () (f m.store)) : Does π m (Eval.guarded check f) P := by
  refine query_bind (P := fun _ => True) ?_ fun _ hk _ => change (h hk) hP
  intro _
  unfold Answers
  cases hk : check m.store with
  | ok _ => trivial
  | error e => exact hc e hk

theorem add {f : Store → α × Store} {P : α → Store → Prop}
    (h : m.store.Sound π → Change π m.store (f m.store).2)
    (hP : P (f m.store).1 (f m.store).2) : Does π m (Eval.add f) P :=
  fun hs => ⟨(h hs).changes, hP⟩

theorem note (e : Event) : Does π m (Eval.note e) fun _ _ => True := by
  intro _
  show Changes π m.store (m.noted e).store ∧ True
  rw [Machine.noted_store]
  exact ⟨refl m.store, trivial⟩

theorem print (text : String) : Does π m (Eval.print text) fun _ _ => True :=
  fun _ => ⟨refl (r := Changes π) m.store, trivial⟩

end Does

/-! ## Cells -/

/-- A new scope is none of those that belong to somebody else. -/
theorem newScope_does {owner : String} {parent : Option ScopeId}
    (around : ∀ p ∈ parent, m.store.Has (.scope p)) :
    Does π m (newScope owner parent) fun id s => s.Has (.scope id) ∧ π.base ≤ id.index := by
  refine Does.of_sound fun hs => Does.add (fun _ => .addScope owner parent around) ?_
  refine ⟨?_, hs.grown⟩
  show m.store.scopes.size < (m.store.scopes.push _).size
  rw [Array.size_push]
  omega

theorem newVariable_does {name : String} {isConst isExported : Bool} {v : Value}
    (held : m.store.Holds v) :
    Does π m (newVariable name isConst v isExported) fun e s =>
      s.Has e.ref ∧ s.entityName e = name := by
  refine Does.map (Does.add (P := fun id s => s.Has (.var id) ∧ s.entityName (.var id) = name)
    (fun _ => .addVariable _ held) ?_) fun _ _ h => h
  constructor
  · show m.store.vars.size < (m.store.vars.push _).size
    rw [Array.size_push]
    omega
  · simp [Store.entityName, Store.addVariable, Store.variableAt?]

/-- The last object of a store is there. -/
theorem has_addObject (s : Store) (o : Object) :
    (s.addObject o).2.Has (.object (s.addObject o).1) := by
  show s.objects.size < (s.objects.push _).size
  rw [Array.size_push]
  omega

theorem newObject_does {prototype : Option ObjectId} {properties : Table Property}
    (above : ∀ p ∈ prototype, m.store.Has (.object p))
    (held : ∀ entry ∈ properties, m.store.Holds entry.2.value) :
    Does π m (newObject prototype properties) fun v s => s.Holds v := by
  refine Does.map (Does.add (P := fun id s => s.Has (.object id)) (fun _ => .addObject _ ?_ ?_)
    (has_addObject _ _)) fun id s h => (Store.holds_object id).mpr h
  · intro r hr
    simp only [Object.refs, Option.map_none, Option.getD_none, List.append_nil, List.mem_append,
      List.mem_map, Option.mem_toList, List.mem_flatMap] at hr
    rcases hr with ⟨p, hp, rfl⟩ | ⟨entry, he, hr⟩
    · exact above p hp
    · exact held entry he r hr
  · intro _ f hf
    cases hf

theorem newArray_does {items : List Value} (held : ∀ v ∈ items, m.store.Holds v) :
    Does π m (newArray items) fun v s => s.Holds v := by
  refine Does.map (Does.add (P := fun id s => s.Has (.array id)) (fun _ => .addArray _ ?_) ?_)
    fun id s h => (Store.holds_array id).mpr h
  · intro v hv
    exact held v (List.mem_toArray.mp hv)
  · show m.store.arrays.size < (m.store.arrays.push _).size
    rw [Array.size_push]
    omega

theorem newFunction_does {f : Function} (held : ∀ r ∈ f.refs, m.store.Has r)
    (code : π.strict → f.callable.Fits) :
    Does π m (newFunction f) fun id s => s.Has (.function id) := by
  refine Does.add (fun _ => .addObject _ ?_ ?_) ?_
  · intro r hr
    exact held r hr
  · intro hπ g hg
    cases hg
    exact code hπ
  · show ((m.store.addObject _).2.function? _).isSome = true
    have hnew : (m.store.addObject ⟨none, [], some f⟩).1.index = m.store.objects.size := rfl
    rw [Store.function?, Store.objectAt?_addObject, if_pos hnew]
    rfl

/-- Functions that a program defines have no rest parameter before the last. -/
theorem newClosure_does {name : String} {isExported : Bool} {c : Closure}
    (there : m.store.Has (.scope c.scope)) (code : π.strict → (Callable.closure c).Fits) :
    Does π m (newClosure name isExported c) fun id s => s.Has (.function id) := by
  unfold newClosure
  have made : Does π m (newFunction ⟨name, isExported, .closure c⟩)
      fun id s => s.Has (.function id) := by
    refine newFunction_does ?_ code
    intro r hr
    rw [List.mem_singleton.mp hr]
    exact there
  by_cases hrest : c.params.dropLast.any (·.isRest) = true
  · rw [if_pos hrest]
    refine Does.throw ?_
    intro hπ
    obtain ⟨p, hp, hr⟩ := List.any_eq_true.mp hrest
    rw [(code hπ).1.single p hp] at hr
    cases hr
  · rw [if_neg hrest]
    exact made

/-! ## Declarations and assignments -/

theorem declare_does {e : Entity} {scope : ScopeId} (there : m.store.Has (.scope scope))
    (held : m.store.Has e.ref) (allowed : π.Declares scope (m.store.entityName e)) :
    Does π m (declare e scope) fun _ _ => True := by
  refine Does.ask_bind (Does.guarded ?_ ?_ trivial)
  · intro f hf
    unfold Store.checkFree at hf
    split at hf
    · cases hf
    · cases hf
      exact fun _ => rfl
  · intro hk _
    refine .bind scope _ e there allowed ?_ held
    unfold Store.checkFree at hk
    split at hk
    · assumption
    · cases hk

/-- A name that is free is declared. -/
theorem declare_of_free {e : Entity} {scope : ScopeId}
    (h : m.store.isFree scope (m.store.entityName e) = true) :
    declare e scope m =
      .ok () { m with store := m.store.bind scope (m.store.entityName e) e } := by
  have hcheck : m.store.checkFree scope (m.store.entityName e) = .ok () := by
    rw [Store.checkFree, if_pos h]
  show (query _ >>= fun _ => change _) m = _
  rw [bind_ok (Does.query_ok hcheck)]
  rfl

/-- A name that is taken is refused, and nothing happens. -/
theorem declare_of_taken {e : Entity} {scope : ScopeId}
    (h : ¬ m.store.isFree scope (m.store.entityName e) = true) :
    declare e scope m =
      .error (.alreadyDefined (m.store.entityName e) (m.store.owner scope)) m := by
  have hcheck : m.store.checkFree scope (m.store.entityName e) =
      .error (.alreadyDefined (m.store.entityName e) (m.store.owner scope)) := by
    rw [Store.checkFree, if_neg h]
  show EStateM.bind (query _) _ m = _
  rw [EStateM.bind, Does.query_error hcheck]

theorem introduce_does {scope : ScopeId} {name : String} {e : Entity}
    (there : m.store.Has (.scope scope)) (held : m.store.Has e.ref)
    (allowed : π.Declares scope name) : Does π m (introduce scope name e) fun _ _ => True := by
  refine Does.ask_bind ?_
  split
  · next free =>
    refine Does.bind (Does.change (P := fun _ _ => True) (fun _ => ?_) trivial) ?_
    · exact .bind scope name e there allowed free held
    · intro _ m' _ _
      exact Does.pure trivial
  · exact Does.pure trivial

theorem assign_does {id : VariableId} {v : Value} (there : m.store.Has (.var id))
    (held : m.store.Holds v) : Does π m (assign id v) fun _ _ => True := by
  refine Does.guarded ?_ (fun hk _ => .setVariable id v there hk held) trivial
  intro f hf
  unfold Store.checkMutable at hf
  split at hf
  · split at hf
    · cases hf
      exact fun _ => rfl
    · cases hf
  · cases hf

theorem setPrototype_does {id : ObjectId} {prototype : Option ObjectId}
    (there : m.store.Has (.object id)) (held : ∀ p ∈ prototype, m.store.Has (.object p)) :
    Does π m (Eval.setPrototype id prototype) fun _ _ => True := by
  refine Does.guarded ?_ (fun hk _ => .setPrototype id prototype there hk held) trivial
  intro f hf
  unfold Store.checkPrototype at hf
  split at hf
  · cases hf
    exact fun _ => rfl
  · cases hf

theorem declareAll_does {isConst : Bool} {scope : ScopeId} {value : Store → String → Value}
    (hv : ∀ (s : Store) name, s.Sound π → s.Holds (value s name)) (opens : π.Opens scope) :
    ∀ (names : List String) (m : Machine), m.store.Has (.scope scope) →
      Does π m (declareAll isConst scope value names) fun _ _ => True
  | [], m, _ => Does.pure trivial
  | name :: rest, m, there => by
    refine Does.of_sound fun hs => Does.ask_bind ?_
    refine Does.bind (newVariable_does (hv m.store name hs)) ?_
    intro e m₁ h₁ he
    refine Does.bind (declare_does (h₁.has there) he.1 (opens _)) ?_
    intro _ m₂ h₂ _
    exact declareAll_does hv opens rest m₂ (h₂.has (h₁.has there))

theorem resolve_does (scope : ScopeId) (name : String) :
    Does π m (resolve scope name) fun e s => s.Has e.ref := by
  refine Does.query ?_
  intro hs
  cases hr : m.store.resolve? scope name with
  | none => exact fun _ => rfl
  | some e => exact hs.closed.resolved hr

/-! ## Arguments -/

theorem bindParameter_does {scope : ScopeId} {name : String} {isConst : Bool} {v : Value}
    (there : m.store.Has (.scope scope)) (opens : π.Opens scope) (held : m.store.Holds v) :
    Does π m (bindParameter scope name isConst v) fun _ _ => True := by
  refine Does.bind (newVariable_does held) ?_
  intro e m₁ h₁ he
  refine Does.bind (introduce_does (h₁.has there) he.1 (opens name)) ?_
  intro _ m₂ _ _
  exact Does.pure trivial

theorem bindPositional_does {scope : ScopeId} (opens : π.Opens scope) :
    ∀ (params : List Param) (args : List Value) (m : Machine), m.store.Has (.scope scope) →
      (∀ v ∈ args, m.store.Holds v) → Does π m (bindPositional scope params args) fun _ _ => True
  | [], _, _, _, _ => Does.pure trivial
  | _ :: _, [], _, _, _ => Does.pure trivial
  | p :: params, v :: args, m, there, held => by
    refine Does.bind (bindParameter_does there opens (held v List.mem_cons_self)) ?_
    intro _ m₁ h₁ _
    refine bindPositional_does opens params args m₁ (h₁.has there) ?_
    intro w hw
    exact h₁.holds (held w (List.mem_cons_of_mem _ hw))

theorem bindArguments_does {name : String} {c : Closure} {args : List Value}
    (around : m.store.Has (.scope c.scope)) (held : ∀ v ∈ args, m.store.Holds v) :
    Does π m (bindArguments name c args) fun scope s => s.Has (.scope scope) ∧ π.Opens scope := by
  refine Does.bind (newScope_does ?_) ?_
  · intro p hp
    cases hp
    exact around
  intro scope m₁ h₁ ⟨there, fresh⟩
  have opens := Permit.opens fresh
  refine Does.bind (bindPositional_does opens _ args m₁ there fun v hv => h₁.holds (held v hv)) ?_
  intro _ m₂ h₂ _
  cases hr : c.rest? with
  | none => exact Does.pure ⟨h₂.has there, opens⟩
  | some p =>
    refine Does.bind (newArray_does ?_) ?_
    · intro v hv
      exact h₂.holds (h₁.holds (held v (List.mem_of_mem_drop hv)))
    intro rest m₃ h₃ hrest
    refine Does.bind (bindParameter_does (h₃.has (h₂.has there)) opens hrest) ?_
    intro _ m₄ h₄ _
    exact Does.pure ⟨h₄.has (h₃.has (h₂.has there)), opens⟩

theorem checkEscape_does (name : String) (c : Closure) (scope : ScopeId) :
    Does π m (checkEscape name c scope) fun _ _ => True := by
  refine Does.query ?_
  intro _
  split
  · split
    · exact fun _ => rfl
    · trivial
  · trivial

end Eval

end Scriptlet
