import Scriptlet.Proofs.Session.Assignment
import Scriptlet.Proofs.Session.Binding

/-!
# Taking an object apart

A destructuring declares a variable for each of its names, one after the other, with the value that
the object has under the name. Each is refused if the scope has the name by then, be it that it had
it before or that the name has come up already, and what was declared before is not taken back. So a
destructuring always declares a first part of its names, and all of them exactly if they are
different and free (`destructuring_declares_first_part`).

* `Store.Vacant` : names that can all be declared in a scope.
* `Store.Declared` : a scope has new variables behind what it had, and nothing else is different.
* `declareAll_append` : names that can be declared are declared, and then come the others.
-/

namespace Scriptlet

namespace Store

variable {s s' : Store} {scope : ScopeId} {c : Scope} {o : ObjectId} {names : List String}
  {name : String} {x : Variable} {xs : List Variable}

/-! ## Names that can be declared -/

/-- The names are different, and the scope has none of them. -/
structure Vacant (s : Store) (scope : ScopeId) (names : List String) : Prop where
  distinct : names.Nodup
  free : ∀ name ∈ names, name ∉ (s.entries scope).keys

/-- The name that stands in the way behind others: the scope has it, or it is one of them. -/
def Taken (s : Store) (scope : ScopeId) (earlier : List String) (name : String) : Prop :=
  name ∈ (s.entries scope).keys ∨ name ∈ earlier

theorem Vacant.not_taken {later : List String}
    (h : s.Vacant scope (names ++ name :: later)) : ¬ s.Taken scope names name := by
  rintro (hold | hearlier)
  · exact h.free name (by simp) hold
  · exact (List.nodup_append.mp h.distinct).2.2 name hearlier name List.mem_cons_self rfl

/-- A name that does not stand in the way can be declared as well. -/
theorem Vacant.concat (h : s.Vacant scope names) (hname : ¬ s.Taken scope names name) :
    s.Vacant scope (names ++ [name]) where
  distinct := by
    refine List.nodup_append.mpr ⟨h.distinct, List.nodup_singleton name, ?_⟩
    intro a ha b hb he
    rw [he, List.mem_singleton.mp hb] at ha
    exact hname (.inr ha)
  free other hother := by
    rcases List.mem_append.mp hother with hother | hother
    · exact h.free other hother
    · rw [List.mem_singleton.mp hother]
      exact fun hold => hname (.inl hold)

/-- Names that cannot all be declared have a first one that stands in the way. -/
theorem vacant_or_taken (s : Store) (scope : ScopeId) (names : List String) :
    s.Vacant scope names ∨ ∃ earlier name later, names = earlier ++ name :: later ∧
      s.Vacant scope earlier ∧ s.Taken scope earlier name := by
  induction names using List.reverseRecOn with
  | nil => exact .inl ⟨List.nodup_nil, by simp⟩
  | append_singleton names name ih =>
    rcases ih with hvacant | ⟨earlier, first, later, rfl, hvacant, htaken⟩
    · by_cases hname : s.Taken scope names name
      · exact .inr ⟨names, name, [], rfl, hvacant, hname⟩
      · exact .inl (hvacant.concat hname)
    · exact .inr ⟨earlier, first, later ++ [name], by simp, hvacant, htaken⟩

/-! ## What is declared -/

/-- The variable of a property: it holds what the object has under the name. -/
def drawn (s : Store) (o : ObjectId) (isConst : Bool) (name : String) : Variable :=
  ⟨name, isConst, (s.getProperty o name).detach, false⟩

theorem names_drawn (s : Store) (o : ObjectId) (isConst : Bool) (names : List String) :
    (names.map (s.drawn o isConst)).map (·.name) = names := by
  rw [List.map_map]
  exact List.map_id names

/-- What an object has under a name has nothing to do with scopes and variables. -/
theorem getProperty_of_objects (h : s'.objects = s.objects) : s'.getProperty = s.getProperty := by
  have hat : s'.objectAt? = s.objectAt? := by
    funext id
    rw [objectAt?, h, objectAt?]
  have hprototype : s'.prototype? = s.prototype? := by
    funext id
    rw [prototype?, hat, prototype?]
  funext id name
  simp only [getProperty, prototypeChain, properties, hat, hprototype, h]

/-- Variables were declared in a scope, in order, behind what it had. They were not there before,
and nothing else is different. A variable whose name was refused may be left over, in no scope. -/
structure Declared (s : Store) (scope : ScopeId) (xs : List Variable) (s' : Store) : Prop where
  entries : ∃ added : Table Entity, s'.entries scope = s.entries scope ++ added ∧
    (added.map (·.2)).Nodup ∧
    List.Forall₂ (fun entry x => entry.1 = x.name ∧
      ∃ id, entry.2 = .var id ∧ ¬ s.Has (.var id) ∧ s'.variableAt? id = some x) added xs
  owner : s'.owner scope = s.owner scope
  parent : s'.parent? scope = s.parent? scope
  scopes : ∀ other, other ≠ scope → s'.scopeAt? other = s.scopeAt? other
  vars : ∀ id, s.Has (.var id) → s'.variableAt? id = s.variableAt? id
  objects : s'.objects = s.objects
  arrays : s'.arrays = s.arrays
  boxes : s'.boxes = s.boxes

theorem boxes_declaring (scope : ScopeId) (xs : List Variable) (s : Store) :
    (declaring scope xs s).boxes = s.boxes := by
  induction xs generalizing s with
  | nil => rfl
  | cons x xs ih => exact ih _

theorem variableAt?_declaring {i : Nat} (h : xs[i]? = some x) (scope : ScopeId) (s : Store) :
    (declaring scope xs s).variableAt? ⟨s.vars.size + i⟩ = some x := by
  rw [variableAt?, vars_declaring, Array.getElem?_append_right (by simp)]
  simpa using h

/-- The entries of the variables, each with its own variable. -/
theorem forall₂_numbered {P : String × Entity → Variable → Prop} {n : Nat}
    (h : ∀ i x, xs[i]? = some x → P (x.name, .var ⟨n + i⟩) x) :
    List.Forall₂ P (numbered n xs) xs := by
  induction xs generalizing n with
  | nil => exact .nil
  | cons x xs ih =>
    refine .cons (h 0 x rfl) (ih ?_)
    intro i y hy
    have hnext := h (i + 1) y hy
    rwa [← Nat.add_assoc, Nat.add_right_comm] at hnext

theorem declared_declaring (h : s.scopeAt? scope = some c) (xs : List Variable) :
    s.Declared scope xs (s.declaring scope xs) where
  entries := by
    refine ⟨_, entries_declaring h xs, nodup_numbered _ _, forall₂_numbered ?_⟩
    intro i x hx
    exact ⟨rfl, _, rfl, Nat.not_lt.mpr (Nat.le_add_right _ _), variableAt?_declaring hx scope s⟩
  owner := by rw [Store.owner, scopeAt?_declaring h, Store.owner, h]; rfl
  parent := by rw [parent?, scopeAt?_declaring h, parent?, h]; rfl
  scopes other hne := scopeAt?_declaring_of_ne hne.symm xs s
  vars id hid := by
    rw [variableAt?, vars_declaring, Array.getElem?_append_left hid, variableAt?]
  objects := objects_declaring scope xs s
  arrays := arrays_declaring scope xs s
  boxes := boxes_declaring scope xs s

/-- A variable that no scope declares makes no difference. -/
theorem Declared.addVariable (h : s.Declared scope xs s') (x : Variable) :
    s.Declared scope xs (s'.addVariable x).2 where
  entries := by
    obtain ⟨added, hadded, hnodup, hvars⟩ := h.entries
    refine ⟨added, hadded, hnodup, hvars.imp ?_⟩
    rintro entry y ⟨hname, id, he, hnew, hy⟩
    have hthere : id.index < s'.vars.size := (Array.getElem?_eq_some_iff.mp hy).1
    refine ⟨hname, id, he, hnew, ?_⟩
    rw [variableAt?_addVariable, if_neg (Nat.ne_of_lt hthere), hy]
  owner := h.owner
  parent := h.parent
  scopes := h.scopes
  vars id hid := by
    have hthere : id.index < s'.vars.size := by
      have hsame := h.vars id hid
      rw [variableAt?, variableAt?, Array.getElem?_eq_getElem hid] at hsame
      exact (Array.getElem?_eq_some_iff.mp hsame).1
    rw [variableAt?_addVariable, if_neg (Nat.ne_of_lt hthere), h.vars id hid]
  objects := h.objects
  arrays := h.arrays
  boxes := h.boxes

theorem entityName_addVariable (s : Store) (x : Variable) :
    (s.addVariable x).2.entityName (.var ⟨s.vars.size⟩) = x.name := by
  rw [entityName, variableAt?_addVariable, if_pos rfl]
  rfl

/-- With other names declared before it, a name that stands in the way is no longer free. -/
theorem isFree_declaring_iff (h : s.scopeAt? scope = some c) :
    (s.declaring scope xs).isFree scope name = true ↔
      ¬ s.Taken scope (xs.map (·.name)) name := by
  rw [isFree_iff, entries_declaring h, Table.keys_append, keys_numbered, List.mem_append, Taken]

end Store

namespace Eval

variable {m m₁ : Machine} {scope : ScopeId} {c : Scope} {isConst : Bool} {o : ObjectId}
  {names : List String} {name : String} {value : Store → String → Value}

/-! ## Declaring name after name -/

/-- A variable is made for the first name, and declared before the others have their turn. -/
theorem declareAll_cons (rest : List String) :
    declareAll isConst scope value (name :: rest) m =
      (declare (.var ⟨m.store.vars.size⟩) scope >>= fun _ => declareAll isConst scope value rest)
        { m with
          store := (m.store.addVariable ⟨name, isConst, value m.store name, false⟩).2 } := rfl

theorem declareAll_of_free (rest : List String) (h : m.store.isFree scope name = true) :
    declareAll isConst scope value (name :: rest) m =
      declareAll isConst scope value rest { m with
        store := m.store.declaring scope [⟨name, isConst, value m.store name, false⟩] } := by
  let x : Variable := ⟨name, isConst, value m.store name, false⟩
  let made : Machine := { m with store := (m.store.addVariable x).2 }
  have hname : made.store.entityName (.var ⟨m.store.vars.size⟩) = name :=
    Store.entityName_addVariable m.store x
  have hfree :
      made.store.isFree scope (made.store.entityName (.var ⟨m.store.vars.size⟩)) = true := by
    rw [hname]
    exact h
  rw [declareAll_cons, bind_ok (declare_of_free hfree), hname]
  rfl

/-- The variable is made before its name is refused. -/
theorem declareAll_of_not_free (rest : List String) (h : ¬ m.store.isFree scope name = true) :
    declareAll isConst scope value (name :: rest) m =
      .error (.alreadyDefined name (m.store.owner scope)) { m with
        store := (m.store.addVariable ⟨name, isConst, value m.store name, false⟩).2 } := by
  let x : Variable := ⟨name, isConst, value m.store name, false⟩
  let made : Machine := { m with store := (m.store.addVariable x).2 }
  have hname : made.store.entityName (.var ⟨m.store.vars.size⟩) = name :=
    Store.entityName_addVariable m.store x
  have htaken :
      ¬ made.store.isFree scope (made.store.entityName (.var ⟨m.store.vars.size⟩)) = true := by
    rw [hname]
    exact h
  rw [declareAll_cons, bind_error (declare_of_taken htaken), hname]
  rfl

/-- The properties of an object under names, as they are asked for. -/
abbrev drawing (o : ObjectId) (s : Store) (name : String) : Value :=
  (s.getProperty o name).detach

/-- Names that can be declared are declared, and then come the others. What the object has under the
names does not change on the way. -/
theorem declareAll_append (isConst : Bool) (o : ObjectId) (hscope : m.store.scopeAt? scope = some c)
    {earlier : List String} (h : m.store.Vacant scope earlier) (rest : List String) :
    declareAll isConst scope (drawing o) (earlier ++ rest) m =
      declareAll isConst scope (drawing o) rest { m with
        store := m.store.declaring scope (earlier.map (m.store.drawn o isConst)) } := by
  induction earlier using List.reverseRecOn generalizing rest with
  | nil => rfl
  | append_singleton earlier name ih =>
    have hearlier : m.store.Vacant scope earlier :=
      ⟨(List.nodup_append.mp h.distinct).1, fun n hn => h.free n (List.mem_append_left _ hn)⟩
    let declared : Machine :=
      { m with store := m.store.declaring scope (earlier.map (m.store.drawn o isConst)) }
    have hfree : declared.store.isFree scope name = true := by
      rw [Store.isFree_declaring_iff hscope, Store.names_drawn]
      exact h.not_taken
    have hvalue : drawing o declared.store name = drawing o m.store name := by
      have hsame : declared.store.getProperty = m.store.getProperty :=
        Store.getProperty_of_objects (Store.objects_declaring ..)
      rw [drawing, hsame]
    rw [List.append_assoc, List.singleton_append, ih hearlier, declareAll_of_free rest hfree,
      hvalue, List.map_append, Store.declaring_append]
    rfl

/-! ## Destructuring -/

variable {eval : Evaluator} {source : Node} {limit : Nat}

theorem destructuring_of_object (h : eval source scope m = .ok (.object o) m₁) :
    destructuring eval limit names isConst source scope m =
      (declareAll isConst scope (drawing o) names >>= fun _ => pure (.object o)) m₁ := by
  rw [destructuring, bind_ok h]

/-- Names that can all be declared are. -/
theorem destructuring_of_vacant (h : eval source scope m = .ok (.object o) m₁)
    (hscope : m₁.store.scopeAt? scope = some c) (hnames : m₁.store.Vacant scope names) :
    destructuring eval limit names isConst source scope m = .ok (.object o) { m₁ with
      store := m₁.store.declaring scope (names.map (m₁.store.drawn o isConst)) } := by
  have hall := declareAll_append isConst o hscope hnames []
  rw [List.append_nil] at hall
  rw [destructuring_of_object h]
  exact bind_ok hall

/-- The first name that stands in the way ends it, with those before it declared. -/
theorem destructuring_of_taken (limit : Nat) (isConst : Bool)
    (h : eval source scope m = .ok (.object o) m₁) (hscope : m₁.store.scopeAt? scope = some c)
    {earlier : List String} (hearlier : m₁.store.Vacant scope earlier)
    (hname : m₁.store.Taken scope earlier name) (later : List String) :
    ∃ x, destructuring eval limit (earlier ++ name :: later) isConst source scope m =
      .error (.alreadyDefined name (m₁.store.owner scope)) { m₁ with
        store := ((m₁.store.declaring scope
          (earlier.map (m₁.store.drawn o isConst))).addVariable x).2 } := by
  let declared : Machine :=
    { m₁ with store := m₁.store.declaring scope (earlier.map (m₁.store.drawn o isConst)) }
  have htaken : ¬ declared.store.isFree scope name = true := by
    rw [Store.isFree_declaring_iff hscope, Store.names_drawn, not_not]
    exact hname
  have howner : declared.store.owner scope = m₁.store.owner scope :=
    (Store.declared_declaring hscope _).owner
  have hstops := declareAll_append isConst o hscope hearlier (name :: later)
  rw [declareAll_of_not_free later htaken, howner] at hstops
  rw [destructuring_of_object h]
  exact ⟨_, bind_error hstops⟩

end Eval

namespace Session

open Eval

/-- Every store that a session comes to, and every one that its next step passes through, is closed.
In every machine with such a store, and in every scope of it, the following holds of a destructuring
whose source has given an object, with `m₁` as the machine that the source has left. It succeeds
exactly if the names are different and the scope has none of them. Then it gives the object, and the
scope has a new variable for each name, in order, with what the object has under the name. Otherwise
it is refused at the first name that the scope has or that has come up before, and the names before
that one are declared. In both cases nothing else is different from `m₁`; in particular no object
is. -/
theorem destructuring_declares_first_part (tracing : Bool) (history : List (Nat × Step)) :
    let before := play tracing history
    (before.machine.store.Closed ∧
      ∀ limit step, Changes.Within permit Store.Closed before.machine.store
        (before.perform limit step).2.machine.store) ∧
    ∀ m : Machine, m.store.Closed → ∀ scope, m.store.Has (.scope scope) →
      ∀ depth line names isConst source o m₁,
        value depth source scope m = .ok (.object o) m₁ →
        let outcome := value (depth + 1) (.destructuring line names isConst source) scope m
        ((∃ v m', outcome = .ok v m') ↔
          names.Nodup ∧ ∀ name ∈ names, name ∉ (m₁.store.entries scope).keys) ∧
        (∀ name, (m₁.store.getProperty o name).Copies (m₁.store.drawn o isConst name).value ∧
          (m₁.store.hasProperty o name = false → m₁.store.getProperty o name = .undefined)) ∧
        match outcome with
        | .ok v m' => v = .object o ∧ m' = { m₁ with store := m'.store } ∧
            m₁.store.Declared scope (names.map (m₁.store.drawn o isConst)) m'.store
        | .error fault m' => ∃ earlier name later, names = earlier ++ name :: later ∧
            m₁.store.Vacant scope earlier ∧ m₁.store.Taken scope earlier name ∧
            fault = .alreadyDefined name (m₁.store.owner scope) ∧
            m' = { m₁ with store := m'.store } ∧
            m₁.store.Declared scope (earlier.map (m₁.store.drawn o isConst)) m'.store := by
  have hsound := (play_spec tracing history).1
  refine ⟨⟨hsound.store.closed, fun limit step => ?_⟩, ?_⟩
  · exact ((hsound.perform limit step).1.within (fun hc => hc.closed) hsound.store.closed).1
  intro m hc scope hscope depth line names isConst source o m₁ h
  have hthere := (changes_of_value hc hscope h).1.has hscope
  have hcell : m₁.store.scopeAt? scope = some _ := Array.getElem?_eq_getElem hthere
  have hdrawn : ∀ name, (m₁.store.getProperty o name).Copies (m₁.store.drawn o isConst name).value ∧
      (m₁.store.hasProperty o name = false → m₁.store.getProperty o name = .undefined) :=
    fun name => ⟨Value.copies_detach _, Store.getProperty_of_not_hasProperty⟩
  dsimp only
  rw [value, valueOf]
  rcases Store.vacant_or_taken m₁.store scope names with
    hvacant | ⟨earlier, name, later, rfl, hvacant, htaken⟩
  · rw [destructuring_of_vacant h hcell hvacant]
    refine ⟨⟨fun _ => ⟨hvacant.distinct, hvacant.free⟩, fun _ => ⟨_, _, rfl⟩⟩, hdrawn, rfl, rfl, ?_⟩
    exact Store.declared_declaring hcell _
  · obtain ⟨x, hrefused⟩ := destructuring_of_taken depth isConst h hcell hvacant htaken later
    rw [hrefused]
    refine ⟨⟨by rintro ⟨v, m', ⟨⟩⟩, ?_⟩, hdrawn, earlier, name, later, rfl, hvacant, htaken, rfl,
      rfl, (Store.declared_declaring hcell _).addVariable x⟩
    rintro ⟨hdistinct, hfree⟩
    exact absurd htaken (Store.Vacant.not_taken ⟨hdistinct, hfree⟩)

/-- The object is known as `o`, so the second of three names is refused; the first one is declared,
with the value of the property. -/
theorem destructuring_stops_at_second_name :
    let m := (play false [(12, .load "const o = \x7ba: 1\x7d")]).machine
    let node : Node := .destructuring 1 ["a", "o", "b"] false (.identifier 1 "o")
    m.store.Closed ∧ m.store.Has (.scope mainScope) ∧
    value 9 (.identifier 1 "o") mainScope m = .ok (.object ⟨8⟩) m ∧
    ∃ m', value 10 node mainScope m = .error (.alreadyDefined "o" "main") m' ∧
      m.store.Declared mainScope [⟨"a", false, .int 1, false⟩] m'.store := by
  intro m node
  have hstore : (m.store.nameValue mainScope "o", (m.store.entries mainScope).keys,
      m.store.owner mainScope, m.store.getProperty ⟨8⟩ "a") =
      (.ok (.object ⟨8⟩), ["o"], "main", .int 1) := by
    dsimp only [m]
    cbv
  simp only [Prod.mk.injEq] at hstore
  obtain ⟨hname, hkeys, howner, ha⟩ := hstore
  have hscope : m.store.Has (.scope mainScope) :=
    serves_permit.toHosts.has_mainScope (play_spec false _).1.store
  have hvalue : value 9 (.identifier 1 "o") mainScope m = .ok (.object ⟨8⟩) m := by
    rw [value_identifier]
    exact Does.query_ok hname
  obtain ⟨⟨hc, -⟩, hlaw⟩ :=
    destructuring_declares_first_part false [(12, .load "const o = \x7ba: 1\x7d")]
  obtain ⟨hiff, -, hends⟩ := hlaw m hc mainScope hscope 9 1 ["a", "o", "b"] false
    (.identifier 1 "o") ⟨8⟩ m hvalue
  refine ⟨hc, hscope, hvalue, ?_⟩
  cases hr : value 10 node mainScope m with
  | ok v m' =>
    have hfree := (hiff.mp ⟨v, m', hr⟩).2 "o" (by simp)
    rw [hkeys] at hfree
    exact absurd List.mem_cons_self hfree
  | error fault m' =>
    rw [hr] at hends
    obtain ⟨earlier, name, later, hnames, hvacant, htaken, rfl, -, hdeclared⟩ := hends
    rw [Store.Taken, hkeys] at htaken
    rcases earlier with _ | ⟨first, _ | ⟨second, more⟩⟩
    · obtain ⟨rfl, -⟩ := List.cons.inj hnames
      simp at htaken
    · simp only [List.cons_append, List.nil_append, List.cons.injEq] at hnames
      obtain ⟨rfl, rfl, -⟩ := hnames
      rw [howner]
      refine ⟨m', rfl, ?_⟩
      simpa [Store.drawn, ha, Value.detach] using hdeclared
    · simp only [List.cons_append, List.cons.injEq] at hnames
      obtain ⟨-, rfl, -⟩ := hnames
      have hfree := hvacant.free "o" (by simp)
      rw [hkeys] at hfree
      exact absurd List.mem_cons_self hfree

end Session

end Scriptlet
