import Scriptlet.Proofs.Node.Fits
import Scriptlet.Proofs.Store.Reference

/-!
# What evaluation does to a store

Evaluation changes a store in small steps: it adds a cell, declares a name, assigns to a variable,
writes a property, gives an object a prototype or an array an element. `Change` lists these steps
with all that evaluation checks before it takes one, so what holds of every step holds of every
evaluation, however it ends.

How far evaluation may go depends on what is evaluated and where. A `Permit` says it: in which of
the scopes names may be declared and dropped, and whether all code is known to fit the grammar.

* `Change` : one step; `Changes` : any number of them.
* `Changes.has` : a reference never becomes invalid.
* `Changes.flagsOf_eq` : a property keeps its flags.
* `Changes.sound` : a closed store stays closed, and code that fits stays the only code.
* `Changes.within` : what every step keeps holds of all stores on the way.
-/

namespace Scriptlet

/-- What an evaluation may do. -/
structure Permit where
  /-- The number of scopes that belong to somebody else: names may be declared in all later ones. -/
  base : Nat
  /-- The names that may be declared in one of the others. -/
  declares : ScopeId → String → Prop
  /-- The names that may be dropped. -/
  drops : ScopeId → String → Prop
  /-- Does all code fit the grammar? -/
  strict : Prop

/-- May a name be declared in a scope? -/
def Permit.Declares (π : Permit) (id : ScopeId) (name : String) : Prop :=
  π.base ≤ id.index ∨ π.declares id name

/-- May all names be declared in a scope? -/
def Permit.Opens (π : Permit) (id : ScopeId) : Prop := ∀ name, π.Declares id name

theorem Permit.opens {π : Permit} {id : ScopeId} (h : π.base ≤ id.index) : π.Opens id :=
  fun _ => Or.inl h

/-- The code of a function is such as the grammar gives. A function in name only has none. -/
def Callable.Fits : Callable → Prop
  | .closure c =>
    Param.Listed c.params ∧ (∀ i ∈ c.body, i.Fits True .instruction) ∧
      c.result.Fits True .expression
  | .native .. => True
  | .hollow => False

/-- A property without its value. -/
def Property.flags (p : Property) : Property := { p with value := .undefined }

/-- The flags of a property that a program adds to an object. -/
def Property.plain : Property := { value := .undefined }

namespace Store

/-- All functions have code that fits. -/
def Coded (s : Store) : Prop := ∀ id f, s.function? id = some f → f.callable.Fits

/-- The flags under which a property of an object is written, whether it is there yet or not. -/
def flagsOf (s : Store) (id : ObjectId) (name : String) : Property :=
  (((s.properties id).get? name).map Property.flags).getD Property.plain

end Store

/-- One step of evaluation, with what is known before it is taken. -/
inductive Change (π : Permit) (s : Store) : Store → Prop where
  | addScope (owner : String) (parent : Option ScopeId) (around : ∀ p ∈ parent, s.Has (.scope p)) :
      Change π s (s.addScope owner parent).2
  | addVariable (x : Variable) (held : s.Holds x.value) : Change π s (s.addVariable x).2
  | addObject (o : Object) (held : ∀ r ∈ o.refs, s.Has r)
      (code : π.strict → ∀ f ∈ o.function, f.callable.Fits) : Change π s (s.addObject o).2
  | addArray (items : Array Value) (held : ∀ v ∈ items, s.Holds v) : Change π s (s.addArray items).2
  | addBox : Change π s s.addBox.2
  | bind (id : ScopeId) (name : String) (e : Entity) (there : s.Has (.scope id))
      (allowed : π.Declares id name) (free : s.isFree id name = true) (held : s.Has e.ref) :
      Change π s (s.bind id name e)
  | drop (id : ScopeId) (keep : String × Entity → Bool)
      (allowed : ∀ entry ∈ s.entries id, keep entry = false → π.drops id entry.1) :
      Change π s (s.modifyEntries id (·.filter keep))
  | setVariable (id : VariableId) (v : Value) (there : s.Has (.var id))
      (mutable : s.checkMutable id = .ok ()) (held : s.Holds v) : Change π s (s.setVariable id v)
  | setProperty (id : ObjectId) (name : String) (p : Property) (there : s.Has (.object id))
      (flags : p.flags = s.flagsOf id name) (writeable : p.isWriteable = true)
      (held : s.Holds p.value) : Change π s (s.setProperty id name p)
  | setPrototype (id : ObjectId) (prototype : Option ObjectId) (there : s.Has (.object id))
      (acyclic : s.checkPrototype id prototype = .ok ())
      (held : ∀ p ∈ prototype, s.Has (.object p)) : Change π s (s.setPrototype id prototype)
  | pushElement (id : ArrayId) (v : Value) (there : s.Has (.array id)) (held : s.Holds v) :
      Change π s (s.pushElement id v)

/-- Any number of steps. -/
def Changes (π : Permit) : Store → Store → Prop := Relation.ReflTransGen (Change π)

variable {π : Permit} {s s' : Store}

instance : Std.Refl (Changes π) := ⟨fun _ => Relation.ReflTransGen.refl⟩

instance : IsTrans Store (Changes π) := ⟨fun _ _ _ => Relation.ReflTransGen.trans⟩

theorem Change.changes (h : Change π s s') : Changes π s s' := Relation.ReflTransGen.single h

/-- The steps lead from the one store to the other through stores with `P` only. -/
def Changes.Within (π : Permit) (P : Store → Prop) : Store → Store → Prop :=
  Relation.ReflTransGen fun s s' => P s ∧ Change π s s' ∧ P s'

/-- What every step keeps holds all the way. -/
theorem Changes.within {P : Store → Prop} (hstep : ∀ {s s'}, Change π s s' → P s → P s')
    (h : Changes π s s') (hs : P s) : Changes.Within π P s s' ∧ P s' := by
  induction h with
  | refl => exact ⟨Relation.ReflTransGen.refl, hs⟩
  | tail _ hc ih =>
    have ht := hstep hc ih.2
    exact ⟨ih.1.tail ⟨ih.2, hc, ht⟩, ht⟩

theorem Changes.Within.imp {P Q : Store → Prop} (h : Changes.Within π P s s')
    (hPQ : ∀ t, P t → Q t) : Changes.Within π Q s s' := by
  induction h with
  | refl => exact Relation.ReflTransGen.refl
  | tail _ hc ih => exact ih.tail ⟨hPQ _ hc.1, hc.2.1, hPQ _ hc.2.2⟩

/-- What every step keeps, any number of steps keeps. -/
theorem Changes.keeps {P : Store → Prop} (hstep : ∀ {s s'}, Change π s s' → P s → P s')
    (h : Changes π s s') (hs : P s) : P s' :=
  (h.within hstep hs).2

/-! ## No cell is given back -/

theorem Change.size_le (h : Change π s s') :
    s.scopes.size ≤ s'.scopes.size ∧ s.vars.size ≤ s'.vars.size ∧
      s.objects.size ≤ s'.objects.size ∧ s.arrays.size ≤ s'.arrays.size := by
  cases h <;>
    simp [Store.addScope, Store.addVariable, Store.addObject, Store.addArray, Store.addBox,
      Store.bind, Store.modifyEntries, Store.setVariable, Store.setProperty, Store.setPrototype,
      Store.pushElement]

/-- What an object does when it is called is settled when it is made. -/
theorem Change.function?_eq (h : Change π s s') {id : ObjectId} (ho : s.Has (.object id)) :
    s'.function? id = s.function? id := by
  change id.index < s.objects.size at ho
  cases h with
  | addObject o =>
    have hne : id.index ≠ s.objects.size := by omega
    rw [Store.function?, Store.objectAt?_addObject, if_neg hne, Store.function?]
  | setProperty other name p =>
    rw [Store.function?, Store.objectAt?_setProperty, Store.function?]
    split
    · cases s.objectAt? id <;> rfl
    · rfl
  | setPrototype other prototype =>
    rw [Store.function?, Store.objectAt?_setPrototype, Store.function?]
    split
    · cases s.objectAt? id <;> rfl
    · rfl
  | _ => rfl

/-- A cell that was there stays there. -/
theorem Change.has (h : Change π s s') {r : Ref} (hr : s.Has r) : s'.Has r := by
  obtain ⟨hs, hv, ho, ha⟩ := h.size_le
  cases r with
  | scope id => exact Nat.lt_of_lt_of_le hr hs
  | var id => exact Nat.lt_of_lt_of_le hr hv
  | object id => exact Nat.lt_of_lt_of_le hr ho
  | array id => exact Nat.lt_of_lt_of_le hr ha
  | function id =>
    show (s'.function? id).isSome = true
    rw [h.function?_eq hr.object_of_function]
    exact hr

theorem Changes.has (h : Changes π s s') {r : Ref} (hr : s.Has r) : s'.Has r :=
  h.keeps (P := (·.Has r)) (fun hc => hc.has) hr

theorem Changes.holds (h : Changes π s s') {v : Value} (hv : s.Holds v) : s'.Holds v :=
  fun r hr => h.has (hv r hr)

theorem Changes.function?_eq (h : Changes π s s') {id : ObjectId} (ho : s.Has (.object id)) :
    s'.function? id = s.function? id := by
  induction h with
  | refl => rfl
  | tail hs hc ih => rw [hc.function?_eq (Changes.has hs ho), ih]

/-! ## No reference leads nowhere -/

/-- What a cell refers to after a step it referred to before, unless the step put it there. -/
theorem Change.mem_refsAt (h : Change π s s') {r r' : Ref} (hr : r' ∈ s'.refsAt r) :
    r' ∈ s.refsAt r ∨ s.Has r' := by
  cases h with
  | addScope owner parent around =>
    rcases Store.mem_refsAt_addScope hr with hr | ⟨p, hp, rfl⟩
    · exact Or.inl hr
    · exact Or.inr (around p hp)
  | addVariable x held => exact (Store.mem_refsAt_addVariable hr).imp_right (held r')
  | addObject o held code => exact (Store.mem_refsAt_addObject hr).imp_right (held r')
  | addArray items held =>
    rcases Store.mem_refsAt_addArray hr with hr | ⟨v, hv, hr⟩
    · exact Or.inl hr
    · exact Or.inr (held v hv r' hr)
  | addBox => exact Or.inl hr
  | bind id name e there allowed free held =>
    rcases Store.mem_refsAt_bind hr with hr | rfl
    · exact Or.inl hr
    · exact Or.inr held
  | drop id keep allowed => exact Or.inl (Store.mem_refsAt_filter hr)
  | setVariable id v there mutable held =>
    exact (Store.mem_refsAt_setVariable hr).imp_right (held r')
  | setProperty id name p there flags writeable held =>
    exact (Store.mem_refsAt_setProperty hr).imp_right (held r')
  | setPrototype id prototype there acyclic held =>
    rcases Store.mem_refsAt_setPrototype hr with hr | ⟨p, hp, rfl⟩
    · exact Or.inl hr
    · exact Or.inr (held p hp)
  | pushElement id v there held => exact (Store.mem_refsAt_pushElement hr).imp_right (held r')

theorem Change.closed (h : Change π s s') (hc : s.Closed) : s'.Closed := by
  intro r r' hr
  rcases h.mem_refsAt hr with hr | hr
  · exact h.has (hc r r' hr)
  · exact h.has hr

/-! ## All code fits -/

/-- A function is one that was there, or a step has just made it. -/
theorem Change.function?_cases (h : Change π s s') {id : ObjectId} {f : Function}
    (hf : s'.function? id = some f) :
    s.function? id = some f ∨ (π.strict → f.callable.Fits) := by
  by_cases ho : s.Has (.object id)
  · rw [h.function?_eq ho] at hf
    exact Or.inl hf
  · cases h with
    | addObject o held code =>
      rw [Store.function?, Store.objectAt?_addObject] at hf
      split at hf
      · exact Or.inr fun hπ => code hπ f hf
      · exact Or.inl hf
    | setProperty other name p there =>
      have hne : other ≠ id := fun he => ho (he ▸ there)
      rw [Store.function?, Store.objectAt?_setProperty, if_neg hne] at hf
      exact Or.inl hf
    | setPrototype other prototype there =>
      have hne : other ≠ id := fun he => ho (he ▸ there)
      rw [Store.function?, Store.objectAt?_setPrototype, if_neg hne] at hf
      exact Or.inl hf
    | _ => exact Or.inl hf

theorem Change.coded (h : Change π s s') (hπ : π.strict) (hs : s.Coded) : s'.Coded := by
  intro id f hf
  rcases h.function?_cases hf with hf | hf
  · exact hs id f hf
  · exact hf hπ

/-! ## Flags of properties -/

/-- A property that is there, or comes to be there, has the same flags for ever. -/
theorem Change.flagsOf_eq (h : Change π s s') {id : ObjectId} (ho : s.Has (.object id))
    (name : String) : s'.flagsOf id name = s.flagsOf id name := by
  change id.index < s.objects.size at ho
  cases h with
  | addObject o =>
    have hne : id.index ≠ s.objects.size := by omega
    rw [Store.flagsOf, Store.properties, Store.objectAt?_addObject, if_neg hne]
    rfl
  | setProperty other key p there flags =>
    rw [Store.flagsOf, Store.properties, Store.objectAt?_setProperty]
    split
    · next he =>
      subst he
      obtain ⟨o, hs⟩ : ∃ o, s.objectAt? other = some o := ⟨_, Array.getElem?_eq_getElem ho⟩
      have hp : s.properties other = o.properties := by rw [Store.properties, hs]; rfl
      rw [hs, Option.map_some, Option.map_some, Option.getD_some, Table.get?_put]
      split
      · next hk =>
        rw [← hk, ← flags]
        rfl
      · rw [Store.flagsOf, hp]
    · rfl
  | setPrototype other prototype =>
    rw [Store.flagsOf, Store.properties, Store.objectAt?_setPrototype]
    split
    · rw [Store.flagsOf, Store.properties]
      cases s.objectAt? id <;> rfl
    · rfl
  | _ => rfl

theorem Changes.flagsOf_eq (h : Changes π s s') {id : ObjectId} (ho : s.Has (.object id))
    (name : String) : s'.flagsOf id name = s.flagsOf id name := by
  induction h with
  | refl => rfl
  | tail hs hc ih => rw [hc.flagsOf_eq (Changes.has hs ho), ih]

/-! ## The invariant of evaluation -/

/-- What evaluation relies on and keeps up. -/
structure Store.Sound (π : Permit) (s : Store) : Prop where
  closed : s.Closed
  coded : π.strict → s.Coded
  grown : π.base ≤ s.scopes.size

theorem Changes.sound (h : Changes π s s') (hs : s.Sound π) : s'.Sound π := by
  refine h.keeps (P := Store.Sound π) ?_ hs
  intro t t' hc ht
  exact ⟨hc.closed ht.closed, fun hπ => hc.coded hπ (ht.coded hπ),
    Nat.le_trans ht.grown hc.size_le.1⟩

end Scriptlet
