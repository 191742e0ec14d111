import Scriptlet.Proofs.Session.Frame

/-!
# All ways to call a function agree

A function can be called by its name, as the value of any other expression, or by the host. The
three are written separately, and the number of arguments is checked twice, at different moments.
They agree all the same (`call_paths_agree`):

* a name gives the same function to a call as to an expression (`calleeOf_eq_ok_iff`);
* once the callee is known, a call is an invocation on the values of the arguments
  (`call_of_admitted`), whatever they do to the name of the callee in the meantime;
* a function written in the language refuses a wrong number of arguments before any of them is
  evaluated, with the fault of the invocation (`call_of_refused`, `invoke_of_refused`).
-/

namespace Scriptlet

/-! ## Numbers of arguments -/

/-- The number of arguments is one that the function takes: as many as there are parameters, or any
number from that of the positional ones on if there is a rest parameter. A native takes any number
up to its own, if it has one, and a function that cannot be called takes none. -/
def Function.Admits (f : Function) (count : Nat) : Prop :=
  match f.callable with
  | .hollow => False
  | .native _ arity => ∀ most ∈ arity, count ≤ most
  | .closure c =>
    match c.rest? with
    | none => count = c.params.length
    | some _ => c.params.length ≤ count + 1

theorem Function.checkArity_eq_ok_iff (f : Function) (count : Nat) :
    f.checkArity count = .ok () ↔ f.Admits count := by
  obtain ⟨name, isExported, callable⟩ := f
  cases callable with
  | hollow => simp [checkArity, Admits]
  | native action arity => cases arity <;> simp [checkArity, Admits]
  | closure c =>
    cases hrest : c.rest? with
    | none => simp [checkArity, Admits, hrest]
    | some p => simp [checkArity, Admits, hrest]

/-- A function written in the language refuses a wrong number of arguments as such. -/
theorem Function.checkArity_of_not_admits {f : Function} {count : Nat} (hf : f.isDefined = true)
    (h : ¬ f.Admits count) : ∃ fault, f.checkArity count = .error fault ∧ fault.kind = .arity := by
  rw [← checkArity_eq_ok_iff] at h
  obtain ⟨name, isExported, callable⟩ := f
  cases callable with
  | hollow | native => cases hf
  | closure c =>
    simp only [checkArity] at h ⊢
    split at h
    · split at h
      · rw [if_pos ‹_›, if_pos ‹_›]
        exact ⟨_, rfl, rfl⟩
      · exact absurd rfl h
    · rw [if_neg ‹_›]
      split at h
      · exact absurd rfl h
      · rw [if_neg ‹_›]
        exact ⟨_, rfl, rfl⟩

/-! ## Names -/

namespace Store

variable {s : Store} {scope : ScopeId} {name : String} {id : ObjectId}

/-- The value that a name gives in a scope. -/
def nameValue (s : Store) (scope : ScopeId) (name : String) : Except Fault Value :=
  match s.resolve? scope name with
  | some e => s.entityValue e name
  | none => .error (.unresolved name)

/-- A name that can be called gives a function, and a name that gives a function can be called. -/
theorem calleeOf_eq_ok_iff (hc : s.Closed) : s.calleeOf scope name = .ok id ↔
    s.nameValue scope name = .ok (.object id) ∧ (s.function? id).isSome = true := by
  unfold calleeOf nameValue
  cases hr : s.resolve? scope name with
  | none => simp
  | some e =>
    cases e with
    | fn f =>
      have hf : (s.function? f).isSome = true := hc.resolved hr
      simp only [entityValue, Except.ok.injEq, Value.object.injEq]
      exact ⟨fun h => ⟨h, h ▸ hf⟩, fun h => h.1⟩
    | mod m => simp [entityValue]
    | var x =>
      simp only [entityValue]
      cases s.valueOf x with
      | object f =>
        simp only [Value.detach, Except.ok.injEq, Value.object.injEq]
        by_cases hf : (s.function? f).isSome = true
        · rw [if_pos hf, Except.ok.injEq]
          exact ⟨fun h => ⟨h, h ▸ hf⟩, fun h => h.1⟩
        · rw [if_neg hf]
          refine ⟨?_, fun h => absurd (h.1 ▸ h.2) hf⟩
          intro h
          cases h
      | undefined | primitive | array | foreign => simp [Value.detach]

theorem function_of_asFunction {limit : Nat} {v : Value} (h : s.asFunction limit v = .ok id) :
    (s.function? id).isSome = true := by
  have refused : ∀ w : Value,
      (do .error (.uncallableValue (← s.format limit w)) : Except Fault ObjectId) ≠ .ok id := by
    intro w
    cases s.format limit w with
    | ok text | error fault =>
      intro h
      cases h
  cases v with
  | object f =>
    change (if (s.function? f).isSome then _ else _) = _ at h
    split at h
    · cases h
      assumption
    · exact absurd h (refused _)
  | undefined | primitive | array | foreign => exact absurd h (refused _)

end Store

namespace Eval

variable {α : Type} {m m₁ m₂ : Machine} {scope : ScopeId} {name : String} {id : ObjectId}

/-- A question is answered by the store and changes nothing. -/
theorem query_eq_ok_iff {f : Store → Except Fault α} {a : α} :
    query f m = .ok a m₁ ↔ f m.store = .ok a ∧ m₁ = m := by
  cases hf : f m.store with
  | ok b =>
    rw [Does.query_ok hf, EStateM.Result.ok.injEq, Except.ok.injEq]
    exact and_congr_right' eq_comm
  | error fault =>
    rw [Does.query_error hf]
    refine ⟨?_, ?_⟩
    · intro h
      cases h
    · rintro ⟨h, -⟩
      cases h

/-- A question that the store refuses to answer changes nothing either. -/
theorem query_eq_error_iff {f : Store → Except Fault α} {fault : Fault} :
    query f m = .error fault m₁ ↔ f m.store = .error fault ∧ m₁ = m := by
  cases hf : f m.store with
  | ok a =>
    rw [Does.query_ok hf]
    simp
  | error found =>
    rw [Does.query_error hf, EStateM.Result.error.injEq, Except.error.injEq]
    exact and_congr_right' eq_comm

theorem final_query (f : Store → Except Fault α) (m : Machine) : final (query f) m = m := by
  cases hf : f m.store with
  | ok b => rw [final, Does.query_ok hf]
  | error fault => rw [final, Does.query_error hf]

/-- A name is an expression that only asks the store. -/
theorem value_identifier (depth line : Nat) (name : String) (scope : ScopeId) (m : Machine) :
    value (depth + 1) (.identifier line name) scope m = query (·.nameValue scope name) m := by
  rw [value, valueOf]
  cases hr : m.store.resolve? scope name with
  | none =>
    have hquery : resolve scope name m = .error (.unresolved name) m :=
      Does.query_error (by rw [hr])
    rw [bind_error hquery, Does.query_error]
    rw [Store.nameValue, hr]
  | some e =>
    have hquery : resolve scope name m = .ok e m := Does.query_ok (by rw [hr])
    have hvalue : m.store.nameValue scope name = m.store.entityValue e name := by
      rw [Store.nameValue, hr]
    rw [bind_ok hquery]
    cases he : m.store.entityValue e name with
    | ok v => rw [Does.query_ok he, Does.query_ok (hvalue.trans he)]
    | error fault => rw [Does.query_error he, Does.query_error (hvalue.trans he)]

/-- So is a name that is called. -/
theorem callee_identifier (eval : Evaluator) (limit line : Nat) (name : String)
    (scope : ScopeId) :
    callee eval limit (.identifier line name) scope = query (·.calleeOf scope name) := rfl

/-- What is called is a function. -/
theorem function_of_callee {eval : Evaluator} {limit : Nat} {node : Node} (hc : m.store.Closed)
    (h : callee eval limit node scope m = .ok id m₁) : ∃ f, m₁.store.function? id = some f := by
  refine Option.isSome_iff_exists.mp ?_
  have evaluated : (do let v ← eval node scope; query (·.asFunction limit v)) m = .ok id m₁ →
      (m₁.store.function? id).isSome = true := by
    intro h
    obtain ⟨v, m₂, -, hquery⟩ := bind_eq_ok h
    obtain ⟨hv, rfl⟩ := query_eq_ok_iff.mp hquery
    exact Store.function_of_asFunction hv
  cases node with
  | identifier line name =>
    rw [callee_identifier] at h
    obtain ⟨hname, rfl⟩ := query_eq_ok_iff.mp h
    exact ((Store.calleeOf_eq_ok_iff hc).mp hname).2
  | _ => exact evaluated h

/-! ## Calls and invocations -/

section

variable {eval : Evaluator} {invoke : ObjectId → List Value → Eval Value} {limit : Nat}
  {function : Node} {args : List Node} {f : Function}

/-- The check that comes before the arguments. -/
theorem call_of_callee (hcallee : callee eval limit function scope m = .ok id m₁)
    (hf : m₁.store.function? id = some f) :
    call eval invoke limit function args scope m =
      (if f.isDefined then do
        query (·.checkArity id args.length)
        let values ← args.mapM (eval · scope)
        invoke id values
      else do
        let values ← args.mapM (eval · scope)
        invoke id values : Eval Value) m₁ := by
  have hask : ask (fun s => (s.function? id).any (·.isDefined)) m₁ = .ok f.isDefined m₁ := by
    show EStateM.Result.ok ((m₁.store.function? id).any (·.isDefined)) m₁ = _
    rw [hf]
    rfl
  rw [call, bind_ok hcallee, bind_ok hask]

theorem checkArity_of_function (hf : m.store.function? id = some f) (count : Nat) :
    m.store.checkArity id count = f.checkArity count := by
  rw [Store.checkArity, hf]

/-- A call with a number of arguments that the function takes is an invocation on their values. -/
theorem call_of_admitted (hcallee : callee eval limit function scope m = .ok id m₁)
    (hf : m₁.store.function? id = some f) (hadmits : f.Admits args.length) {vs : List Value}
    (hargs : args.mapM (eval · scope) m₁ = .ok vs m₂) :
    call eval invoke limit function args scope m = invoke id vs m₂ := by
  have harity : query (·.checkArity id args.length) m₁ = .ok () m₁ := by
    refine Does.query_ok ?_
    rw [checkArity_of_function hf]
    exact (f.checkArity_eq_ok_iff args.length).mpr hadmits
  rw [call_of_callee hcallee hf]
  split
  · rw [bind_ok harity, bind_ok hargs]
  · rw [bind_ok hargs]

/-- A function written in the language refuses a wrong number of arguments at once. -/
theorem call_of_refused (hcallee : callee eval limit function scope m = .ok id m₁)
    (hf : m₁.store.function? id = some f) (hdefined : f.isDefined = true) {fault : Fault}
    (hrefused : f.checkArity args.length = .error fault) :
    call eval invoke limit function args scope m = .error fault m₁ := by
  have harity : query (·.checkArity id args.length) m₁ = .error fault m₁ := by
    refine Does.query_error ?_
    rw [checkArity_of_function hf, hrefused]
  rw [call_of_callee hcallee hf, if_pos hdefined, bind_error harity]

/-- An invocation refuses a wrong number of arguments before anything else. -/
theorem invoke_of_refused (hf : m.store.function? id = some f) {vs : List Value} {fault : Fault}
    (hrefused : f.checkArity vs.length = .error fault) (depth : Nat) :
    Eval.invoke (depth + 1) id vs m = .error fault m := by
  have harity : query (·.checkArity id vs.length) m = .error fault m := by
    refine Does.query_error ?_
    rw [checkArity_of_function hf, hrefused]
  rw [Eval.invoke, invokeOf, bind_error harity]

end

end Eval

namespace Session

open Eval

/-- A function that a name of the main module gives is invoked by a call from the host. -/
theorem call_of_nameValue {m : Machine} {name : String} {id : ObjectId}
    (h : m.store.nameValue mainScope name = .ok (.object id))
    (hf : (m.store.function? id).isSome = true) (limit : Nat) (vs : List Value) :
    call limit name vs m = invoke limit id vs m := by
  have hask : ask (fun s => (s.function? id).isSome) m = .ok true m := by
    show EStateM.Result.ok (m.store.function? id).isSome m = _
    rw [hf]
  unfold Store.nameValue at h
  split at h
  · next e hr =>
    have hresolve : resolve mainScope name m = .ok e m := Does.query_ok (by rw [hr])
    have hvalue : query (·.entityValue e name) m = .ok (.object id) m := Does.query_ok h
    rw [call, bind_ok hresolve, bind_ok hvalue]
    dsimp only
    rw [bind_ok hask]
    rfl
  · cases h

/-- In every machine whose references all lead somewhere, as those of a session do (`play_spec`),
and in every scope:

* a name that is called stands for a function exactly when it has the function as its value, and
  asking for either changes nothing;
* whatever is called, the callee is a function. If it takes as many arguments as there are, the call
  comes to what an invocation on their values comes to, after they have been evaluated;
* if it does not, and is written in the language, the call fails before any argument is evaluated,
  with the fault of every invocation of the function on as many values, in this machine or in any
  other that has the function;
* a call by the host invokes the function that a call in the main scope would call. -/
theorem call_paths_agree (m : Machine) (hc : m.store.Closed) (scope : ScopeId) (depth : Nat) :
    (∀ line d name,
      (∀ id, callee (value depth) depth (.identifier line name) scope m = .ok id m ↔
        value (d + 1) (.identifier line name) scope m = .ok (.object id) m ∧
          (m.store.function? id).isSome = true) ∧
      final (callee (value depth) depth (.identifier line name) scope) m = m ∧
      final (value (d + 1) (.identifier line name) scope) m = m) ∧
    (∀ line function args id m₁, callee (value depth) depth function scope m = .ok id m₁ →
      ∃ f, m₁.store.function? id = some f ∧
        (f.Admits args.length → ∀ vs m₂, args.mapM (value depth · scope) m₁ = .ok vs m₂ →
          value (depth + 1) (.call line function args) scope m = invoke depth id vs m₂) ∧
        (f.isDefined = true → ¬ f.Admits args.length →
          ∃ fault, fault.kind = .arity ∧
            value (depth + 1) (.call line function args) scope m = .error fault m₁ ∧
            ∀ d vs m', vs.length = args.length → m'.store.function? id = some f →
              invoke (d + 1) id vs m' = .error fault m')) ∧
    ∀ line name id, callee (value depth) depth (.identifier line name) mainScope m = .ok id m →
      ∀ limit vs, call limit name vs m = invoke limit id vs m := by
  refine ⟨?_, ?_, ?_⟩
  · intro line d name
    rw [callee_identifier]
    refine ⟨fun id => ?_, final_query _ m, ?_⟩
    · rw [value_identifier, query_eq_ok_iff, query_eq_ok_iff, Store.calleeOf_eq_ok_iff hc]
      tauto
    · rw [final, value_identifier]
      exact final_query _ m
  · intro line function args id m₁ hcallee
    obtain ⟨f, hf⟩ := function_of_callee hc hcallee
    refine ⟨f, hf, ?_, ?_⟩
    · intro hadmits vs m₂ hargs
      exact call_of_admitted hcallee hf hadmits hargs
    · intro hdefined hadmits
      obtain ⟨fault, hrefused, hkind⟩ := f.checkArity_of_not_admits hdefined hadmits
      refine ⟨fault, hkind, call_of_refused hcallee hf hdefined hrefused, ?_⟩
      intro d vs m' hlength hf'
      exact invoke_of_refused hf' (by rw [hlength, hrefused]) d
  · intro line name id hcallee limit vs
    rw [callee_identifier] at hcallee
    obtain ⟨hname, -⟩ := query_eq_ok_iff.mp hcallee
    obtain ⟨hvalue, hf⟩ := (Store.calleeOf_eq_ok_iff hc).mp hname
    exact call_of_nameValue hvalue hf limit vs

/-- An action that gives a result ends well. -/
theorem exists_of_run' {ε σ α : Type} {act : EStateM ε σ α} {a : α} {s : σ}
    (h : act.run' s = some a) : ∃ s', act s = .ok a s' := by
  rw [EStateM.run'] at h
  cases hr : act.run s with
  | ok b s' =>
    rw [hr] at h
    cases h
    exact ⟨s', hr⟩
  | error e s' =>
    rw [hr] at h
    cases h

/-- A call whose argument gives the name of the callee another value: the callee is still called. -/
theorem call_of_rebound_name :
    let m := (play false [(12, .load "fn f(x) = x var g = f")]).machine
    let args : List Node := [.reassignment 1 (.identifier 1 "g") (.integer 1 2)]
    m.store.Closed ∧ m.store.nameValue mainScope "g" = .ok (.object ⟨8⟩) ∧
      ∃ m₂, args.mapM (value 5 · mainScope) m = .ok [.int 2] m₂ ∧
        m₂.store.nameValue mainScope "g" = .ok (.int 2) ∧
        value 6 (.call 1 (.identifier 1 "g") args) mainScope m = invoke 5 ⟨8⟩ [.int 2] m₂ := by
  intro m args
  have hc : m.store.Closed := (play_spec false _).1.store.closed
  have hstore : (m.store.calleeOf mainScope "g", m.store.nameValue mainScope "g",
      m.store.function? ⟨8⟩) = (.ok ⟨8⟩, .ok (.object ⟨8⟩),
        some ⟨"f", false, .closure ⟨mainScope, [⟨"x", false⟩], [], .identifier 1 "x"⟩⟩) := by
    dsimp only [m]
    cbv
  simp only [Prod.mk.injEq] at hstore
  obtain ⟨hcallee, hvalue, hfunction⟩ := hstore
  -- the values of the arguments, and what the name stands for after them
  have hargs : EStateM.run' (do
      let vs ← args.mapM (value 5 · mainScope)
      return (vs, (← get).store.nameValue mainScope "g")) m =
        some ([.int 2], .ok (.int 2)) := by
    dsimp only [m, args]
    cbv
  obtain ⟨_, hends⟩ := exists_of_run' hargs
  obtain ⟨vs, m₂, hmap, hlast⟩ := bind_eq_ok hends
  injection hlast with hpair
  obtain ⟨rfl, hrebound⟩ := Prod.mk.inj hpair
  have hfound : callee (value 5) 5 (.identifier 1 "g") mainScope m = .ok ⟨8⟩ m := by
    rw [callee_identifier, Does.query_ok hcallee]
  obtain ⟨f, hf, hcall, -⟩ :=
    (call_paths_agree m hc mainScope 5).2.1 1 (.identifier 1 "g") args ⟨8⟩ m hfound
  rw [hfunction] at hf
  cases hf
  exact ⟨hc, hvalue, m₂, hmap, hrebound, hcall rfl [.int 2] m₂ hmap⟩

end Session

end Scriptlet
