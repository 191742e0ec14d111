import Scriptlet.Proofs.Session.CallPaths

/-!
# What a call does with its arguments

A call makes a scope of its own, and a new variable in it for each parameter. That no argument is
lost on the way rests on the check of their number: `bindPositional` stops where either list ends,
and `bindParameter` passes over a name that is taken.

* `Store.declaring` : the store with new variables in a scope. Binding parameters of different
  names does just that (`bindPositional_eq`, `bindArguments_eq`).
* `Store.Received` : what the store of a call has of its arguments, and what it has left alone.
* `arguments_received` : every number of arguments that is not refused is received.
-/

namespace Scriptlet

/-! ## New variables in a scope -/

/-- The entries of variables whose cells are numbered on from `n`. -/
def numbered (n : Nat) : List Variable → Table Entity
  | [] => []
  | x :: xs => (x.name, .var ⟨n⟩) :: numbered (n + 1) xs

section

variable {n : Nat} {x : Variable} {xs : List Variable}

theorem keys_numbered (n : Nat) (xs : List Variable) :
    (numbered n xs).keys = xs.map (·.name) := by
  induction xs generalizing n with
  | nil => rfl
  | cons x xs ih => exact congrArg (x.name :: ·) (ih (n + 1))

theorem entity_of_mem_numbered {entry : String × Entity} (h : entry ∈ numbered n xs) :
    ∃ i, n ≤ i ∧ entry.2 = .var ⟨i⟩ := by
  induction xs generalizing n with
  | nil => cases h
  | cons x xs ih =>
    rcases List.mem_cons.mp h with rfl | h
    · exact ⟨n, Nat.le_refl n, rfl⟩
    · obtain ⟨i, hi, he⟩ := ih h
      exact ⟨i, by omega, he⟩

/-- No two names stand for one variable. -/
theorem nodup_numbered (n : Nat) (xs : List Variable) :
    ((numbered n xs).map (·.2)).Nodup := by
  induction xs generalizing n with
  | nil => exact List.nodup_nil
  | cons x xs ih =>
    refine List.nodup_cons.mpr ⟨?_, ih (n + 1)⟩
    intro h
    obtain ⟨entry, hentry, he⟩ := List.mem_map.mp h
    obtain ⟨i, hi, hvar⟩ := entity_of_mem_numbered hentry
    rw [hvar] at he
    simp only [Entity.var.injEq, VariableId.mk.injEq] at he
    omega

/-- Of different names each has its own entry. -/
theorem get?_numbered (hnodup : (xs.map (·.name)).Nodup) {i : Nat} (h : xs[i]? = some x) :
    (numbered n xs).get? x.name = some (.var ⟨n + i⟩) := by
  induction xs generalizing n i with
  | nil => simp at h
  | cons y xs ih =>
    obtain ⟨hnew, hnodup⟩ := List.nodup_cons.mp hnodup
    rw [numbered, Table.get?]
    cases i with
    | zero =>
      simp only [List.getElem?_cons_zero, Option.some.injEq] at h
      subst h
      exact if_pos rfl
    | succ i =>
      rw [List.getElem?_cons_succ] at h
      have hne : y.name ≠ x.name := by
        intro he
        exact hnew (List.mem_map.mpr ⟨x, List.mem_of_getElem? h, he.symm⟩)
      rw [if_neg hne, ih hnodup h]
      congr 3
      omega

end

namespace Store

variable {s : Store} {scope : ScopeId} {c : Scope} {x : Variable} {xs : List Variable}

/-- The store with new variables in a scope, one after the other. -/
def declaring (scope : ScopeId) : List Variable → Store → Store
  | [], s => s
  | x :: xs, s =>
    declaring scope xs ((s.addVariable x).2.bind scope x.name (.var (s.addVariable x).1))

theorem declaring_append (scope : ScopeId) (xs ys : List Variable) (s : Store) :
    declaring scope (xs ++ ys) s = declaring scope ys (declaring scope xs s) := by
  induction xs generalizing s with
  | nil => rfl
  | cons x xs ih => exact ih _

theorem vars_declaring (scope : ScopeId) (xs : List Variable) (s : Store) :
    (declaring scope xs s).vars = s.vars ++ xs.toArray := by
  induction xs generalizing s with
  | nil => exact Array.append_empty.symm
  | cons x xs ih =>
    rw [declaring, ih]
    show s.vars.push x ++ xs.toArray = s.vars ++ (x :: xs).toArray
    simp

theorem objects_declaring (scope : ScopeId) (xs : List Variable) (s : Store) :
    (declaring scope xs s).objects = s.objects := by
  induction xs generalizing s with
  | nil => rfl
  | cons x xs ih => exact ih _

theorem arrays_declaring (scope : ScopeId) (xs : List Variable) (s : Store) :
    (declaring scope xs s).arrays = s.arrays := by
  induction xs generalizing s with
  | nil => rfl
  | cons x xs ih => exact ih _

theorem elements_declaring (scope : ScopeId) (xs : List Variable) (s : Store) (id : ArrayId) :
    (declaring scope xs s).elements id = s.elements id := by
  rw [elements, arrays_declaring, elements]

/-- An array that is made after the variables could have been made before them. -/
theorem addArray_declaring (scope : ScopeId) (xs : List Variable) (items : Array Value)
    (s : Store) :
    ((declaring scope xs s).addArray items).2 = declaring scope xs (s.addArray items).2 := by
  induction xs generalizing s with
  | nil => rfl
  | cons x xs ih => exact ih _

/-- The scope has the new entries behind those that it had. -/
theorem scopeAt?_declaring (h : s.scopeAt? scope = some c) (xs : List Variable) :
    (declaring scope xs s).scopeAt? scope =
      some { c with entries := c.entries ++ numbered s.vars.size xs } := by
  induction xs generalizing s c with
  | nil =>
    rw [declaring, h, numbered, List.append_nil]
  | cons x xs ih =>
    have hstep : ((s.addVariable x).2.bind scope x.name (.var (s.addVariable x).1)).scopeAt? scope
        = some { c with entries := c.entries ++ [(x.name, .var ⟨s.vars.size⟩)] } := by
      rw [Store.bind, scopeAt?_modifyEntries, if_pos rfl]
      exact congrArg (Option.map _) h
    have hsize : ((s.addVariable x).2.bind scope x.name (.var (s.addVariable x).1)).vars.size =
        s.vars.size + 1 := Array.size_push _
    rw [declaring, ih hstep, hsize, numbered, List.append_assoc]
    rfl

theorem scopeAt?_declaring_of_ne {other : ScopeId} (h : scope ≠ other) (xs : List Variable)
    (s : Store) : (declaring scope xs s).scopeAt? other = s.scopeAt? other := by
  induction xs generalizing s with
  | nil => rfl
  | cons x xs ih =>
    rw [declaring, ih, Store.bind, scopeAt?_modifyEntries, if_neg h]
    rfl

/-! ## Names -/

theorem isFree_iff {name : String} :
    s.isFree scope name = true ↔ name ∉ (s.entries scope).keys := by
  rw [isFree, Bool.not_eq_true', Bool.eq_false_iff, ne_eq, Table.contains_iff_mem_keys]

theorem entries_declaring (h : s.scopeAt? scope = some c) (xs : List Variable) :
    (declaring scope xs s).entries scope = s.entries scope ++ numbered s.vars.size xs := by
  rw [entries, scopeAt?_declaring h, entries, h]
  rfl

/-- A name that none of the variables has stays free. -/
theorem isFree_declaring (h : s.scopeAt? scope = some c) {name : String}
    (hfree : s.isFree scope name = true) (hnew : name ∉ xs.map (·.name)) :
    (declaring scope xs s).isFree scope name = true := by
  rw [isFree_iff, entries_declaring h, Table.keys_append, keys_numbered, List.mem_append]
  rintro (hold | hold)
  · exact isFree_iff.mp hfree hold
  · exact hnew hold

/-- A scope declares a variable under its own name. -/
def Binds (s : Store) (scope : ScopeId) (x : Variable) : Prop :=
  ∃ id, (s.entries scope).get? x.name = some (.var id) ∧ s.variableAt? id = some x

theorem binds_declaring (h : s.scopeAt? scope = some c) (hempty : c.entries = [])
    (hnodup : (xs.map (·.name)).Nodup) (hx : x ∈ xs) : (declaring scope xs s).Binds scope x := by
  obtain ⟨i, hi⟩ := List.mem_iff_getElem?.mp hx
  refine ⟨⟨s.vars.size + i⟩, ?_, ?_⟩
  · have hentries : s.entries scope = [] := by
      rw [entries, h]
      exact hempty
    rw [entries_declaring h, hentries, List.nil_append, get?_numbered hnodup hi]
  · rw [variableAt?, vars_declaring, Array.getElem?_append_right (by simp)]
    simpa using hi

end Store

/-! ## Parameters -/

/-- The variables of parameters that take one argument each. -/
def positionalVariables (params : List Param) (args : List Value) : List Variable :=
  List.zipWith (fun p v => ⟨p.name, false, v, false⟩) params args

theorem names_positionalVariables {params : List Param} {args : List Value}
    (h : params.length ≤ args.length) :
    (positionalVariables params args).map (·.name) = params.map (·.name) := by
  rw [positionalVariables, List.map_zipWith]
  induction params generalizing args with
  | nil => rfl
  | cons p params ih =>
    cases args with
    | nil => simp at h
    | cons v args => exact congrArg (p.name :: ·) (ih (Nat.le_of_succ_le_succ h))

/-- What holds of the variables holds of each parameter with its argument. -/
theorem forall₂_positionalVariables {params : List Param} {args : List Value}
    {P : Variable → Prop} (hlength : params.length ≤ args.length)
    (h : ∀ x ∈ positionalVariables params args, P x) :
    List.Forall₂ (fun p v => P ⟨p.name, false, v, false⟩) params (args.take params.length) := by
  induction params generalizing args with
  | nil => exact .nil
  | cons p params ih =>
    cases args with
    | nil => simp at hlength
    | cons v args =>
      obtain ⟨hfirst, hothers⟩ := List.forall_mem_cons.mp h
      exact .cons hfirst (ih (Nat.le_of_succ_le_succ hlength) hothers)

namespace Closure

variable {c : Closure}

/-- A rest parameter is the last one, after the positional ones. -/
theorem positional_append_rest (c : Closure) : c.positional ++ c.rest?.toList = c.params := by
  unfold positional
  cases hrest : c.rest? with
  | none => simp
  | some p =>
    have hlast : c.params.getLast? = some p := (Option.filter_eq_some_iff.mp hrest).1
    simpa using List.dropLast_append_getLast? p hlast

/-- The variable of the rest parameter, if there is one: a constant that stands for an array. -/
def restVariables (c : Closure) (items : ArrayId) : List Variable :=
  c.rest?.toList.map fun p => ⟨p.name, true, .array items, false⟩

/-- The variables of a call. -/
def bindings (c : Closure) (args : List Value) (items : ArrayId) : List Variable :=
  positionalVariables c.positional args ++ c.restVariables items

theorem names_bindings {args : List Value} (h : c.positional.length ≤ args.length)
    (items : ArrayId) : (c.bindings args items).map (·.name) = c.params.map (·.name) := by
  rw [bindings, List.map_append, names_positionalVariables h, restVariables, List.map_map,
    ← c.positional_append_rest, List.map_append]
  rfl

end Closure

/-- The store of a call before its parameters are bound: there is the scope, and the array of the
arguments that are left for a rest parameter. -/
def Store.opening (s : Store) (name : String) (c : Closure) (args : List Value) : Store :=
  let opened := (s.addScope name (some c.scope)).2
  match c.rest? with
  | none => opened
  | some _ => (opened.addArray (args.drop c.positional.length).toArray).2

namespace Eval

variable {m : Machine} {scope : ScopeId} {c : Scope}

theorem introduce_of_isFree {name : String} {e : Entity}
    (hfree : m.store.isFree scope name = true) :
    introduce scope name e m = .ok true { m with store := m.store.bind scope name e } := by
  have hask : ask (·.isFree scope name) m = .ok true m := congrArg (EStateM.Result.ok · m) hfree
  rw [introduce, bind_ok hask]
  rfl

/-- A parameter whose name is free becomes a new variable of the scope. -/
theorem bindParameter_eq {x : Variable} (hfree : m.store.isFree scope x.name = true)
    (hexported : x.isExported = false) :
    bindParameter scope x.name x.isConst x.value m =
      .ok () { m with store := m.store.declaring scope [x] } := by
  obtain ⟨name, isConst, v, isExported⟩ := x
  cases hexported
  let m' : Machine := { m with store := (m.store.addVariable ⟨name, isConst, v, false⟩).2 }
  have hnew : newVariable name isConst v false m = .ok (.var ⟨m.store.vars.size⟩) m' := rfl
  have hintro := introduce_of_isFree (m := m') (e := .var ⟨m.store.vars.size⟩) hfree
  rw [bindParameter, bind_ok hnew, bind_ok hintro]
  rfl

/-- Parameters of different names become new variables of the scope, in order, as long as there are
arguments. -/
theorem bindPositional_eq (hscope : m.store.scopeAt? scope = some c) {params : List Param}
    (hnodup : (params.map (·.name)).Nodup)
    (hfree : ∀ p ∈ params, m.store.isFree scope p.name = true) (args : List Value) :
    bindPositional scope params args m =
      .ok () { m with store := m.store.declaring scope (positionalVariables params args) } := by
  induction params generalizing m c args with
  | nil => rfl
  | cons p params ih =>
    cases args with
    | nil => rfl
    | cons v args =>
      obtain ⟨hp, hparams⟩ := List.forall_mem_cons.mp hfree
      obtain ⟨hnew, hnodup⟩ := List.nodup_cons.mp hnodup
      have hstep := bindParameter_eq (x := ⟨p.name, false, v, false⟩) hp rfl
      rw [bindPositional, bind_ok hstep]
      -- the names that are still to come are free in the scope with the first parameter too
      refine ih (m := ⟨_, _, _, _⟩) (Store.scopeAt?_declaring hscope _) hnodup ?_ args
      intro q hq
      refine Store.isFree_declaring hscope (hparams q hq) ?_
      simp only [List.map_cons, List.map_nil, List.mem_singleton]
      intro he
      exact hnew (List.mem_map.mpr ⟨q, hq, he⟩)

/-- The array of a rest parameter is made after the positional parameters are bound, but could have
been made before. -/
theorem newArray_declaring (scope : ScopeId) (xs : List Variable) (items : List Value)
    (m : Machine) :
    newArray items { m with store := m.store.declaring scope xs } =
      .ok (.array ⟨m.store.arrays.size⟩)
        { m with store := (m.store.addArray items.toArray).2.declaring scope xs } := by
  rw [← Store.addArray_declaring, ← Store.arrays_declaring scope xs m.store]
  rfl

/-- Binding the arguments of a call opens its scope and declares the variables of its parameters. -/
theorem bindArguments_eq {c : Closure} (hnodup : (c.params.map (·.name)).Nodup) (name : String)
    {args : List Value} (hargs : c.positional.length ≤ args.length) (m : Machine) :
    bindArguments name c args m = .ok ⟨m.store.scopes.size⟩
      { m with
        store := (m.store.opening name c args).declaring ⟨m.store.scopes.size⟩
          (c.bindings args ⟨m.store.arrays.size⟩) } := by
  let scope : ScopeId := ⟨m.store.scopes.size⟩
  let opened : Machine := { m with store := (m.store.addScope name (some c.scope)).2 }
  have hopen : newScope name (some c.scope) m = .ok scope opened := rfl
  have hscope : opened.store.scopeAt? scope = some ⟨name, some c.scope, []⟩ := by
    rw [Store.scopeAt?_addScope, if_pos rfl]
  have hfree : ∀ name, opened.store.isFree scope name = true := by
    intro name
    rw [Store.isFree_iff, Store.entries, hscope]
    exact List.not_mem_nil
  rw [← c.positional_append_rest, List.map_append] at hnodup
  obtain ⟨hpositional, -, hdisjoint⟩ := List.nodup_append.mp hnodup
  have hpos := bindPositional_eq hscope hpositional (fun p _ => hfree p.name) args
  rw [bindArguments, bind_ok hopen, bind_ok hpos]
  cases hrest : c.rest? with
  | none =>
    have hbindings : c.bindings args ⟨m.store.arrays.size⟩ =
        positionalVariables c.positional args := by
      rw [Closure.bindings, Closure.restVariables, hrest]
      exact List.append_nil _
    rw [hbindings, Store.opening, hrest]
    rfl
  | some p =>
    let items : ArrayId := ⟨m.store.arrays.size⟩
    have hbindings : c.bindings args items =
        positionalVariables c.positional args ++ [⟨p.name, true, .array items, false⟩] := by
      rw [Closure.bindings, Closure.restVariables, hrest]
      rfl
    let rest := args.drop c.positional.length
    let filled : Machine :=
      { m with
        store := (opened.store.addArray rest.toArray).2.declaring scope
          (positionalVariables c.positional args) }
    have harray : newArray rest
        { m with store := opened.store.declaring scope (positionalVariables c.positional args) } =
        .ok (.array items) filled :=
      newArray_declaring scope (positionalVariables c.positional args) rest opened
    have hfreeRest : filled.store.isFree scope p.name = true := by
      refine Store.isFree_declaring (s := (opened.store.addArray rest.toArray).2) hscope
        (hfree p.name) ?_
      rw [names_positionalVariables hargs]
      intro hp
      exact hdisjoint _ hp p.name (by simp [hrest]) rfl
    have hlast := bindParameter_eq (x := ⟨p.name, true, .array items, false⟩) hfreeRest rfl
    rw [hbindings, Store.opening, hrest, Store.declaring_append]
    dsimp only
    rw [bind_ok harray, bind_ok hlast]
    rfl

end Eval

/-! ## What a call has of its arguments -/

/-- The scope of a call has the arguments: it is new, inside the scope of the function, and declares
the parameters in order, each as a variable that was not there before and is no other parameter's.
The positional ones hold the first arguments, one each, and can be assigned to. A rest parameter is
constant and holds a new array of all others, of which there are none if there is no rest parameter.
All that was there before is as it was. -/
structure Store.Received (s : Store) (name : String) (c : Closure) (args : List Value)
    (scope : ScopeId) (s' : Store) : Prop where
  fresh : ¬ s.Has (.scope scope)
  there : s'.Has (.scope scope)
  owner : s'.owner scope = name
  parent : s'.parent? scope = some c.scope
  names : (s'.entries scope).keys = c.params.map (·.name)
  new : ∀ entry ∈ s'.entries scope, ¬ s.Has entry.2.ref
  separate : ((s'.entries scope).map (·.2)).Nodup
  values : ∃ values items, args = values ++ items ∧
    List.Forall₂ (fun p v => s'.Binds scope ⟨p.name, false, v, false⟩) c.positional values ∧
    match c.rest? with
    | none => items = []
    | some p => ∃ id, ¬ s.Has (.array id) ∧ (s'.elements id).toList = items ∧
        s'.Binds scope ⟨p.name, true, .array id, false⟩
  scopes : ∀ id, s.Has (.scope id) → s'.scopeAt? id = s.scopeAt? id
  vars : ∀ id, s.Has (.var id) → s'.variableAt? id = s.variableAt? id
  arrays : ∀ id, s.Has (.array id) → s'.elements id = s.elements id
  objects : s'.objects = s.objects

namespace Store

variable {s : Store} {name : String} {c : Closure} {args : List Value}

theorem scopeAt?_opening (id : ScopeId) : (s.opening name c args).scopeAt? id =
    if id.index = s.scopes.size then some ⟨name, some c.scope, []⟩ else s.scopeAt? id := by
  have hopened := s.scopeAt?_addScope name (some c.scope) id
  unfold opening
  cases c.rest? with
  | none => exact hopened
  | some p => exact hopened

theorem vars_opening : (s.opening name c args).vars = s.vars := by
  unfold opening
  cases c.rest? <;> rfl

theorem objects_opening : (s.opening name c args).objects = s.objects := by
  unfold opening
  cases c.rest? <;> rfl

theorem elements_opening {id : ArrayId} (h : s.Has (.array id)) :
    (s.opening name c args).elements id = s.elements id := by
  change id.index < s.arrays.size at h
  unfold opening
  cases c.rest? with
  | none => rfl
  | some p =>
    dsimp only
    rw [elements_addArray]
    exact if_neg (Nat.ne_of_lt h)

/-- What the positional parameters leave is in the array of the rest parameter. -/
theorem elements_opening_new {p : Param} (hrest : c.rest? = some p) :
    ((s.opening name c args).elements ⟨s.arrays.size⟩).toList = args.drop c.positional.length := by
  rw [opening, hrest]
  dsimp only
  rw [elements_addArray]
  exact congrArg Array.toList (if_pos rfl)

/-- The store of a call has received the arguments, if there are enough of them for the positional
parameters and no more without a rest parameter. -/
theorem received_opening_declaring (hnodup : (c.params.map (·.name)).Nodup)
    (hargs : c.positional.length ≤ args.length)
    (hall : c.rest? = none → args.length = c.positional.length) :
    s.Received name c args ⟨s.scopes.size⟩
      ((s.opening name c args).declaring ⟨s.scopes.size⟩ (c.bindings args ⟨s.arrays.size⟩)) := by
  set opened := s.opening name c args with hopened
  set xs := c.bindings args ⟨s.arrays.size⟩ with hxs
  set scope : ScopeId := ⟨s.scopes.size⟩ with hscope
  have hnames : xs.map (·.name) = c.params.map (·.name) := Closure.names_bindings hargs _
  have hopen : opened.scopeAt? scope = some ⟨name, some c.scope, []⟩ := by
    rw [hopened, scopeAt?_opening, if_pos rfl]
  have hcell := scopeAt?_declaring hopen xs
  have hentries : (opened.declaring scope xs).entries scope = numbered s.vars.size xs := by
    rw [entries, hcell, hopened, vars_opening]
    rfl
  have hbinds : ∀ x ∈ xs, (opened.declaring scope xs).Binds scope x := fun x hx =>
    binds_declaring hopen rfl (hnames ▸ hnodup) hx
  have hpositional : List.Forall₂
      (fun p v => (opened.declaring scope xs).Binds scope ⟨p.name, false, v, false⟩)
      c.positional (args.take c.positional.length) := by
    refine forall₂_positionalVariables hargs ?_
    intro x hx
    exact hbinds x (List.mem_append_left _ hx)
  refine {
    fresh := Nat.lt_irrefl _
    there := (Array.getElem?_eq_some_iff.mp hcell).1
    owner := by rw [owner, hcell]; rfl
    parent := by rw [parent?, hcell]; rfl
    names := by rw [hentries, keys_numbered, hnames]
    new := ?_
    separate := by rw [hentries]; exact nodup_numbered _ _
    values := ⟨args.take c.positional.length, args.drop c.positional.length,
      (List.take_append_drop _ _).symm, hpositional, ?_⟩
    scopes := ?_
    vars := ?_
    arrays := ?_
    objects := by rw [objects_declaring, hopened, objects_opening] }
  · intro entry hentry
    rw [hentries] at hentry
    obtain ⟨i, hi, he⟩ := entity_of_mem_numbered hentry
    rw [he]
    exact Nat.not_lt.mpr hi
  · cases hrest : c.rest? with
    | none => exact List.drop_of_length_le (hall hrest).le
    | some p =>
      refine ⟨⟨s.arrays.size⟩, Nat.lt_irrefl _, ?_, ?_⟩
      · rw [elements_declaring, hopened, elements_opening_new hrest]
      · refine hbinds _ (List.mem_append_right _ ?_)
        simp [Closure.restVariables, hrest]
  · intro id hid
    change id.index < s.scopes.size at hid
    have hne : scope ≠ id := by
      rintro rfl
      exact Nat.lt_irrefl _ hid
    rw [scopeAt?_declaring_of_ne hne, hopened, scopeAt?_opening, if_neg (Nat.ne_of_lt hid)]
  · intro id hid
    rw [variableAt?, vars_declaring, hopened, vars_opening, Array.getElem?_append_left hid]
    rfl
  · intro id hid
    rw [elements_declaring, hopened, elements_opening hid]

end Store

namespace Function

variable {f : Function} {c : Closure}

/-- A function written in the language takes as many arguments as it has parameters, or one less
and any number more if the last is a rest parameter. -/
theorem checkArity_closure_iff (hf : f.callable = .closure c) (count : Nat) :
    f.checkArity count = .ok () ↔
      match c.rest? with
      | none => count = c.params.length
      | some _ => c.params.length - 1 ≤ count := by
  rw [checkArity_eq_ok_iff, Admits, hf]
  dsimp only
  cases c.rest? with
  | none => exact Iff.rfl
  | some p =>
    show c.params.length ≤ count + 1 ↔ c.params.length - 1 ≤ count
    omega

/-- A number of arguments that is not refused fits the parameters. -/
theorem positional_length_of_checkArity (hf : f.callable = .closure c) {count : Nat}
    (h : f.checkArity count = .ok ()) :
    c.positional.length ≤ count ∧ (c.rest? = none → count = c.positional.length) := by
  have hcount := (checkArity_closure_iff hf count).mp h
  have hlength := congrArg List.length c.positional_append_rest
  rw [List.length_append] at hlength
  cases hrest : c.rest? with
  | none =>
    rw [hrest] at hcount hlength
    simp only [Option.toList_none, List.length_nil] at hlength
    exact ⟨by omega, fun _ => by omega⟩
  | some p =>
    rw [hrest] at hcount hlength
    simp only [Option.toList_some, List.length_singleton] at hlength
    exact ⟨by omega, fun h => by cases h⟩

end Function

namespace Eval

/-- For every function written in the language whose parameters have different names, and every list
of arguments: the number of arguments is accepted if it is that of the parameters, or, with a rest
parameter, no less than that of the others. Then, in every machine, the call makes a scope and
changes nothing but the store, in which the parameters have received the arguments. -/
theorem arguments_received (f : Function) (c : Closure) (hf : f.callable = .closure c)
    (hnodup : (c.params.map (·.name)).Nodup) (args : List Value) (m : Machine) :
    (f.checkArity args.length = .ok () ↔
      match c.rest? with
      | none => args.length = c.params.length
      | some _ => c.params.length - 1 ≤ args.length) ∧
    (f.checkArity args.length = .ok () →
      ∃ scope s', bindArguments f.name c args m = .ok scope { m with store := s' } ∧
        m.store.Received f.name c args scope s') := by
  refine ⟨Function.checkArity_closure_iff hf _, ?_⟩
  intro hcheck
  obtain ⟨hargs, hall⟩ := Function.positional_length_of_checkArity hf hcheck
  exact ⟨_, _, bindArguments_eq hnodup f.name hargs m,
    Store.received_opening_declaring hnodup hargs hall⟩

/-- Of three arguments the second and the third are left for the rest parameter; that there is no
argument at all is refused. -/
theorem arguments_received_three :
    let c : Closure := ⟨⟨0⟩, [⟨"first", false⟩, ⟨"others", true⟩], [], .undefined 1⟩
    let f : Function := ⟨"f", false, .closure c⟩
    let m : Machine := { Machine.empty false with store := (Store.empty.addScope "Main" none).2 }
    let args : List Value := [.int 1, .int 2, .int 3]
    f.checkArity 0 ≠ .ok () ∧
    ∃ scope s', bindArguments f.name c args m = .ok scope { m with store := s' } ∧
      (s'.entries scope).keys = ["first", "others"] ∧
      s'.Binds scope ⟨"first", false, .int 1, false⟩ ∧
      ∃ id, s'.Binds scope ⟨"others", true, .array id, false⟩ ∧
        (s'.elements id).toList = [.int 2, .int 3] := by
  intro c f m args
  refine ⟨?_, ?_⟩
  · intro h
    have hnone : 1 ≤ 0 := (arguments_received f c rfl (by decide) [] m).1.mp h
    omega
  · have hcheck : f.checkArity args.length = .ok () := rfl
    obtain ⟨scope, s', hbind, hreceived⟩ :=
      (arguments_received f c rfl (by decide) args m).2 hcheck
    obtain ⟨values, items, hsplit, hpositional, hrest⟩ := hreceived.values
    obtain ⟨id, -, helements, hlast⟩ := hrest
    refine ⟨scope, s', hbind, hreceived.names, ?_⟩
    cases hpositional with
    | cons hfirst htail =>
      cases htail
      obtain ⟨rfl, hitems⟩ := List.cons.inj hsplit
      exact ⟨hfirst, id, hlast, helements.trans hitems.symm⟩

end Eval

end Scriptlet
