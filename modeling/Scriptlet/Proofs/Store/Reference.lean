import Mathlib.Logic.Relation
import Scriptlet.Store.View

/-!
# References

The cells of a store refer to each other: a scope to the scope around it and to what its names
stand for, a function to the scope that it was defined in, objects and arrays to the values in
them. A store is closed when none of these references leads nowhere.

* `Ref` : a reference to a cell. A function is an object, and a reference to it says more.
* `Store.Has` : the cell is there.
* `Store.refsAt` : what the cell refers to.
* `Store.Closed` : whatever a cell refers to is there.
* `Store.Leads` : one reference leads to another along any number of cells.
-/

namespace Scriptlet

/-- Refers to a cell of the store. -/
inductive Ref where
  | scope (id : ScopeId)
  | var (id : VariableId)
  | object (id : ObjectId)
  /-- An object that can be called. -/
  | function (id : ObjectId)
  | array (id : ArrayId)
  deriving DecidableEq, Repr

/-! ## What a cell refers to -/

/-- What a value refers to. -/
def Value.refs : Value → List Ref
  | .object id => [.object id]
  | .array id => [.array id]
  | _ => []

/-- What a name refers to. -/
def Entity.ref : Entity → Ref
  | .var id => .var id
  | .fn id => .function id
  | .mod m => .scope m.scope

/-- What a scope refers to: the scope around it and its entities. -/
def Scope.refs (c : Scope) : List Ref :=
  c.parent.toList.map .scope ++ c.entries.map fun entry => entry.2.ref

/-- What a function refers to: the scope that it was defined in. -/
def Function.refs (f : Function) : List Ref :=
  match f.callable with
  | .closure c => [.scope c.scope]
  | _ => []

/-- What an object refers to: the object that it falls back on and the values of its properties. -/
def Object.refs (o : Object) : List Ref :=
  o.prototype.toList.map .object ++ o.properties.flatMap (fun entry => entry.2.value.refs) ++
    (o.function.map Function.refs).getD []

namespace Store

/-- Is the cell there, and is it of the kind that the reference says? -/
def Has (s : Store) : Ref → Prop
  | .scope id => id.index < s.scopes.size
  | .var id => id.index < s.vars.size
  | .object id => id.index < s.objects.size
  | .function id => (s.function? id).isSome = true
  | .array id => id.index < s.arrays.size

instance (s : Store) : (r : Ref) → Decidable (s.Has r)
  | .scope id => inferInstanceAs (Decidable (id.index < s.scopes.size))
  | .var id => inferInstanceAs (Decidable (id.index < s.vars.size))
  | .object id => inferInstanceAs (Decidable (id.index < s.objects.size))
  | .function id => inferInstanceAs (Decidable ((s.function? id).isSome = true))
  | .array id => inferInstanceAs (Decidable (id.index < s.arrays.size))

/-- What a cell refers to. -/
def refsAt (s : Store) : Ref → List Ref
  | .scope id => ((s.scopeAt? id).map Scope.refs).getD []
  | .var id => (s.valueOf id).refs
  | .object id | .function id => ((s.objectAt? id).map Object.refs).getD []
  | .array id => (s.elements id).toList.flatMap Value.refs

/-- Whatever a cell refers to is there. -/
def Closed (s : Store) : Prop := ∀ r, ∀ r' ∈ s.refsAt r, s.Has r'

/-- One reference leads to another, along any number of cells. -/
def Leads (s : Store) : Ref → Ref → Prop :=
  Relation.ReflTransGen fun r r' => r' ∈ s.refsAt r

/-- Whatever a value refers to is there. -/
def Holds (s : Store) (v : Value) : Prop := ∀ r ∈ v.refs, s.Has r

variable {s : Store}

/-- In a closed store nothing that a reference leads to is missing. -/
theorem Closed.has_of_leads (hc : s.Closed) {r r' : Ref} (hr : s.Has r) (h : s.Leads r r') :
    s.Has r' := by
  induction h with
  | refl => exact hr
  | tail _ hstep _ => exact hc _ _ hstep

/-- A function is an object. -/
theorem Has.object_of_function {id : ObjectId} (h : s.Has (.function id)) : s.Has (.object id) := by
  show id.index < s.objects.size
  change ((s.objects[id.index]?).bind (·.function)).isSome = true at h
  by_cases hn : id.index < s.objects.size
  · exact hn
  · rw [Array.getElem?_eq_none (by omega)] at h
    cases h

@[simp] theorem holds_undefined : s.Holds .undefined := by
  intro r hr
  cases hr

@[simp] theorem holds_primitive (p : Primitive) (box : Nat) : s.Holds (.primitive p box) := by
  intro r hr
  cases hr

@[simp] theorem holds_foreign (content : Payload) (box : Nat) : s.Holds (.foreign content box) := by
  intro r hr
  cases hr

@[simp] theorem holds_object (id : ObjectId) : s.Holds (.object id) ↔ s.Has (.object id) := by
  simp [Holds, Value.refs]

@[simp] theorem holds_array (id : ArrayId) : s.Holds (.array id) ↔ s.Has (.array id) := by
  simp [Holds, Value.refs]

@[simp] theorem holds_detach (v : Value) : s.Holds v.detach ↔ s.Holds v := by
  cases v <;> simp [Value.detach]

/-! ## What a closed store gives

Every question to the store that is answered with a reference is answered with one that leads to a
cell. -/

theorem Closed.parent (hc : s.Closed) {id p : ScopeId} (h : s.parent? id = some p) :
    s.Has (.scope p) := by
  unfold parent? at h
  obtain ⟨c, hs, hp⟩ := Option.bind_eq_some_iff.mp h
  refine hc (.scope id) _ ?_
  simp [refsAt, hs, Scope.refs, hp]

theorem Closed.entry (hc : s.Closed) {id : ScopeId} {entry : String × Entity}
    (h : entry ∈ s.entries id) : s.Has entry.2.ref := by
  unfold entries at h
  cases hs : s.scopeAt? id with
  | none =>
    rw [hs] at h
    cases h
  | some c =>
    rw [hs] at h
    refine hc (.scope id) _ ?_
    simp only [refsAt, hs, Option.map_some, Option.getD_some, Scope.refs, List.mem_append]
    exact Or.inr (List.mem_map_of_mem h)

theorem Closed.value (hc : s.Closed) (id : VariableId) : s.Holds (s.valueOf id) := hc (.var id)

theorem Closed.prototype (hc : s.Closed) {id p : ObjectId} (h : s.prototype? id = some p) :
    s.Has (.object p) := by
  unfold prototype? at h
  obtain ⟨o, hs, hp⟩ := Option.bind_eq_some_iff.mp h
  refine hc (.object id) _ ?_
  simp [refsAt, hs, Object.refs, hp]

theorem Closed.property (hc : s.Closed) {id : ObjectId} {entry : String × Property}
    (h : entry ∈ s.properties id) : s.Holds entry.2.value := by
  unfold properties at h
  cases hs : s.objectAt? id with
  | none =>
    rw [hs] at h
    cases h
  | some o =>
    rw [hs] at h
    intro r hr
    refine hc (.object id) _ ?_
    simp only [refsAt, hs, Option.map_some, Option.getD_some, Object.refs, List.mem_append]
    exact Or.inl (Or.inr (List.mem_flatMap.mpr ⟨entry, h, hr⟩))

theorem Closed.closure (hc : s.Closed) {id : ObjectId} {f : Function} {c : Closure}
    (h : s.function? id = some f) (hf : f.callable = .closure c) : s.Has (.scope c.scope) := by
  unfold function? at h
  obtain ⟨o, hs, ho⟩ := Option.bind_eq_some_iff.mp h
  refine hc (.object id) _ ?_
  simp [refsAt, hs, Object.refs, ho, Function.refs, hf]

theorem Closed.element (hc : s.Closed) {id : ArrayId} {v : Value} (h : v ∈ s.elements id) :
    s.Holds v := by
  intro r hr
  exact hc (.array id) _ (List.mem_flatMap.mpr ⟨v, Array.mem_toList_iff.mpr h, hr⟩)

/-- What an index of an array gives. -/
theorem Closed.elementAt (hc : s.Closed) (id : ArrayId) (index : Int) :
    s.Holds (s.elementAt id index) := by
  unfold Store.elementAt
  split
  · exact holds_undefined
  · cases h : (s.elements id)[index.toNat]? with
    | none => exact holds_undefined
    | some v => exact hc.element (Array.mem_of_getElem? h)

end Store

/-! ## Tables -/

theorem Table.mem_of_get? {β : Type} {t : Table β} {name : String} {entry : β}
    (h : t.get? name = some entry) : (name, entry) ∈ t := by
  induction t with
  | nil => cases h
  | cons pair rest ih =>
    obtain ⟨key, old⟩ := pair
    unfold get? at h
    split at h
    · next hk =>
      cases h
      rw [hk]
      exact List.mem_cons_self
    · exact List.mem_cons_of_mem _ (ih h)

theorem Table.mem_put {β : Type} {t : Table β} {name : String} {entry : β} {pair : String × β}
    (h : pair ∈ t.put name entry) : pair ∈ t ∨ pair = (name, entry) := by
  induction t with
  | nil => exact Or.inr (List.mem_singleton.mp h)
  | cons first rest ih =>
    obtain ⟨key, old⟩ := first
    unfold put at h
    split at h
    · next hk =>
      rcases List.mem_cons.mp h with rfl | h
      · exact Or.inr (by rw [hk])
      · exact Or.inl (List.mem_cons_of_mem _ h)
    · rcases List.mem_cons.mp h with rfl | h
      · exact Or.inl List.mem_cons_self
      · rcases ih h with h | h
        · exact Or.inl (List.mem_cons_of_mem _ h)
        · exact Or.inr h

namespace Store

variable {s : Store}

/-- What a name stands for is there. -/
theorem Closed.resolved (hc : s.Closed) {id : ScopeId} {name : String} {e : Entity}
    (h : s.resolve? id name = some e) : s.Has e.ref := by
  unfold resolve? at h
  obtain ⟨i, -, hi⟩ := List.exists_of_findSome?_eq_some h
  exact hc.entry (Table.mem_of_get? hi)

/-- A property that is looked for along the prototypes is there. -/
theorem Closed.getProperty (hc : s.Closed) (id : ObjectId) (name : String) :
    s.Holds (s.getProperty id name) := by
  unfold Store.getProperty
  cases h : (s.prototypeChain id).findSome? fun o => (s.properties o).get? name with
  | none => exact holds_undefined
  | some p =>
    obtain ⟨o, -, ho⟩ := List.exists_of_findSome?_eq_some h
    exact hc.property (Table.mem_of_get? ho)

/-! ## What a change adds

A change of the store adds at most the references that it brings along. -/

variable {r r' : Ref}

theorem mem_refsAt_addScope {owner : String} {parent : Option ScopeId}
    (h : r' ∈ (s.addScope owner parent).2.refsAt r) :
    r' ∈ s.refsAt r ∨ ∃ p ∈ parent, r' = .scope p := by
  cases r with
  | scope id =>
    rw [refsAt, scopeAt?_addScope] at h
    split at h
    · simp only [Option.map_some, Option.getD_some, Scope.refs, List.map_nil, List.append_nil,
        List.mem_map, Option.mem_toList] at h
      obtain ⟨p, hp, rfl⟩ := h
      exact Or.inr ⟨p, hp, rfl⟩
    · exact Or.inl h
  | _ => exact Or.inl h

theorem mem_refsAt_addVariable {x : Variable} (h : r' ∈ (s.addVariable x).2.refsAt r) :
    r' ∈ s.refsAt r ∨ r' ∈ x.value.refs := by
  cases r with
  | var id =>
    rw [refsAt, valueOf, variableAt?_addVariable] at h
    split at h
    · exact Or.inr h
    · exact Or.inl h
  | _ => exact Or.inl h

theorem mem_refsAt_addObject {o : Object} (h : r' ∈ (s.addObject o).2.refsAt r) :
    r' ∈ s.refsAt r ∨ r' ∈ o.refs := by
  cases r with
  | object id | function id =>
    rw [refsAt, objectAt?_addObject] at h
    split at h
    · exact Or.inr h
    · exact Or.inl h
  | _ => exact Or.inl h

theorem mem_refsAt_addArray {items : Array Value} (h : r' ∈ (s.addArray items).2.refsAt r) :
    r' ∈ s.refsAt r ∨ ∃ v ∈ items, r' ∈ v.refs := by
  cases r with
  | array id =>
    rw [refsAt, elements_addArray] at h
    split at h
    · obtain ⟨v, hv, hr⟩ := List.mem_flatMap.mp h
      exact Or.inr ⟨v, Array.mem_toList_iff.mp hv, hr⟩
    · exact Or.inl h
  | _ => exact Or.inl h

/-- A scope whose table was changed refers to what is in the table now. -/
theorem mem_refsAt_modifyEntries {id : ScopeId} {f : Table Entity → Table Entity}
    (h : r' ∈ (s.modifyEntries id f).refsAt r) :
    r' ∈ s.refsAt r ∨
      r = .scope id ∧ ∃ c, s.scopeAt? id = some c ∧ ∃ entry ∈ f c.entries, r' = entry.2.ref := by
  cases r with
  | scope other =>
    rw [refsAt, scopeAt?_modifyEntries] at h
    split at h
    · next he =>
      subst he
      cases hs : s.scopeAt? id with
      | none =>
        rw [hs] at h
        cases h
      | some c =>
        rw [hs] at h
        rw [refsAt, hs]
        rcases List.mem_append.mp h with h | h
        · exact Or.inl (List.mem_append_left _ h)
        · obtain ⟨entry, he, rfl⟩ := List.mem_map.mp h
          exact Or.inr ⟨rfl, c, rfl, entry, he, rfl⟩
    · exact Or.inl h
  | _ => exact Or.inl h

theorem mem_refsAt_of_entry {id : ScopeId} {c : Scope} (hs : s.scopeAt? id = some c)
    {entry : String × Entity} (he : entry ∈ c.entries) : entry.2.ref ∈ s.refsAt (.scope id) := by
  rw [refsAt, hs]
  exact List.mem_append_right _ (List.mem_map_of_mem he)

theorem mem_refsAt_bind {id : ScopeId} {name : String} {e : Entity}
    (h : r' ∈ (s.bind id name e).refsAt r) : r' ∈ s.refsAt r ∨ r' = e.ref := by
  rcases mem_refsAt_modifyEntries h with h | ⟨rfl, c, hs, entry, he, rfl⟩
  · exact Or.inl h
  · rcases List.mem_append.mp he with he | he
    · exact Or.inl (mem_refsAt_of_entry hs he)
    · exact Or.inr (by rw [List.mem_singleton.mp he])

theorem mem_refsAt_filter {id : ScopeId} {keep : String × Entity → Bool}
    (h : r' ∈ (s.modifyEntries id (·.filter keep)).refsAt r) : r' ∈ s.refsAt r := by
  rcases mem_refsAt_modifyEntries h with h | ⟨rfl, c, hs, entry, he, rfl⟩
  · exact h
  · exact mem_refsAt_of_entry hs (List.mem_filter.mp he).1

theorem mem_refsAt_setVariable {id : VariableId} {v : Value}
    (h : r' ∈ (s.setVariable id v).refsAt r) : r' ∈ s.refsAt r ∨ r' ∈ v.refs := by
  cases r with
  | var other =>
    rw [refsAt, valueOf, variableAt?_setVariable] at h
    split at h
    · cases hs : s.variableAt? other with
      | none =>
        rw [hs] at h
        cases h
      | some x =>
        rw [hs] at h
        exact Or.inr h
    · exact Or.inl h
  | _ => exact Or.inl h

theorem mem_refsAt_setProperty {id : ObjectId} {name : String} {p : Property}
    (h : r' ∈ (s.setProperty id name p).refsAt r) : r' ∈ s.refsAt r ∨ r' ∈ p.value.refs := by
  cases r with
  | object other | function other =>
    rw [refsAt, objectAt?_setProperty] at h
    split at h
    · cases hs : s.objectAt? other with
      | none =>
        rw [hs] at h
        cases h
      | some o =>
        rw [hs] at h
        rw [refsAt, hs]
        simp only [Option.map_some, Option.getD_some, Object.refs, List.mem_append,
          List.mem_flatMap] at h ⊢
        rcases h with (h | ⟨entry, he, h⟩) | h
        · exact Or.inl (Or.inl (Or.inl h))
        · rcases Table.mem_put he with he | rfl
          · exact Or.inl (Or.inl (Or.inr ⟨entry, he, h⟩))
          · exact Or.inr h
        · exact Or.inl (Or.inr h)
    · exact Or.inl h
  | _ => exact Or.inl h

theorem mem_refsAt_setPrototype {id : ObjectId} {prototype : Option ObjectId}
    (h : r' ∈ (s.setPrototype id prototype).refsAt r) :
    r' ∈ s.refsAt r ∨ ∃ p ∈ prototype, r' = .object p := by
  cases r with
  | object other | function other =>
    rw [refsAt, objectAt?_setPrototype] at h
    split at h
    · cases hs : s.objectAt? other with
      | none =>
        rw [hs] at h
        cases h
      | some o =>
        rw [hs] at h
        rw [refsAt, hs]
        simp only [Option.map_some, Option.getD_some, Object.refs, List.mem_append, List.mem_map,
          Option.mem_toList] at h ⊢
        rcases h with (⟨p, hp, rfl⟩ | h) | h
        · exact Or.inr ⟨p, hp, rfl⟩
        · exact Or.inl (Or.inl (Or.inr h))
        · exact Or.inl (Or.inr h)
    · exact Or.inl h
  | _ => exact Or.inl h

theorem mem_refsAt_pushElement {id : ArrayId} {v : Value}
    (h : r' ∈ (s.pushElement id v).refsAt r) : r' ∈ s.refsAt r ∨ r' ∈ v.refs := by
  cases r with
  | array other =>
    obtain ⟨w, hw, hr⟩ := List.mem_flatMap.mp h
    rcases mem_elements_pushElement (Array.mem_toList_iff.mp hw) with hw | rfl
    · exact Or.inl (List.mem_flatMap.mpr ⟨w, Array.mem_toList_iff.mpr hw, hr⟩)
    · exact Or.inr hr
  | _ => exact Or.inl h

end Store

end Scriptlet
