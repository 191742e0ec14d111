import Scriptlet.Store

/-!
# What a change shows

The views of a store (`scopeAt?`, `entries`, `parent?`, `scopeChain`, `valueOf`, `properties`,
`prototypeChain`, `elements`) after each of its changes. A change reaches the one cell that it
names; in particular writing names or properties leaves the chains as they are.
-/

namespace Scriptlet.Store

/-! ## New cells

A new cell stands behind the others: every reference that was given out before leads where it
led. -/

theorem scopeAt?_addScope (s : Store) (owner : String) (parent : Option ScopeId) (id : ScopeId) :
    (s.addScope owner parent).2.scopeAt? id =
      if id.index = s.scopes.size then some ⟨owner, parent, []⟩ else s.scopeAt? id := by
  simp only [addScope, scopeAt?, Array.getElem?_push]

theorem variableAt?_addVariable (s : Store) (x : Variable) (id : VariableId) :
    (s.addVariable x).2.variableAt? id =
      if id.index = s.vars.size then some x else s.variableAt? id := by
  simp only [addVariable, variableAt?, Array.getElem?_push]

theorem objectAt?_addObject (s : Store) (o : Object) (id : ObjectId) :
    (s.addObject o).2.objectAt? id =
      if id.index = s.objects.size then some o else s.objectAt? id := by
  simp only [addObject, objectAt?, Array.getElem?_push]

theorem elements_addArray (s : Store) (items : Array Value) (id : ArrayId) :
    (s.addArray items).2.elements id =
      if id.index = s.arrays.size then items else s.elements id := by
  simp only [addArray, elements, Array.getElem?_push]
  split <;> rfl

/-! ## Scopes -/

/-- Changing a table reaches the scope that it belongs to and no other. -/
theorem scopeAt?_modifyEntries (s : Store) (id other : ScopeId)
    (f : Table Entity → Table Entity) :
    (s.modifyEntries id f).scopeAt? other =
      if id = other then
        (s.scopeAt? other).map fun scope => { scope with entries := f scope.entries }
      else s.scopeAt? other := by
  obtain ⟨i⟩ := id
  obtain ⟨j⟩ := other
  simp only [modifyEntries, scopeAt?, Array.getElem?_modify, ScopeId.mk.injEq]

/-- Changing a table moves no scope. -/
@[simp] theorem parent?_modifyEntries (s : Store) (id other : ScopeId)
    (f : Table Entity → Table Entity) : (s.modifyEntries id f).parent? other = s.parent? other := by
  simp only [parent?, scopeAt?_modifyEntries]
  split
  · cases s.scopeAt? other <;> rfl
  · rfl

/-- Changing a table leaves the owners of the scopes. -/
@[simp] theorem owner_modifyEntries (s : Store) (id other : ScopeId)
    (f : Table Entity → Table Entity) : (s.modifyEntries id f).owner other = s.owner other := by
  simp only [owner, scopeAt?_modifyEntries]
  split
  · cases s.scopeAt? other <;> rfl
  · rfl

/-- Changing a table leaves the chains of scopes. -/
@[simp] theorem scopeChain_modifyEntries (s : Store) (id start : ScopeId)
    (f : Table Entity → Table Entity) :
    (s.modifyEntries id f).scopeChain start = s.scopeChain start := by
  have hp : (s.modifyEntries id f).parent? = s.parent? := by
    funext other
    exact parent?_modifyEntries s id other f
  have hs : (s.modifyEntries id f).scopes.size = s.scopes.size := by simp [modifyEntries]
  rw [scopeChain, scopeChain, hp, hs]

/-- Changing a table leaves the other ones. -/
theorem entries_modifyEntries_of_ne (s : Store) {id other : ScopeId} (h : id ≠ other)
    (f : Table Entity → Table Entity) : (s.modifyEntries id f).entries other = s.entries other := by
  simp [entries, scopeAt?_modifyEntries, h]

/-- A new name stands behind those that a scope had. -/
theorem entries_bind (s : Store) {id : ScopeId} {scope : Scope} (h : s.scopeAt? id = some scope)
    (name : String) (e : Entity) :
    (s.bind id name e).entries id = s.entries id ++ [(name, e)] := by
  simp [bind, entries, scopeAt?_modifyEntries, h]

/-! ## Variables -/

/-- Assigning to a variable reaches that one and no other. -/
theorem variableAt?_setVariable (s : Store) (id other : VariableId) (v : Value) :
    (s.setVariable id v).variableAt? other =
      if id = other then (s.variableAt? other).map fun x => { x with value := v }
      else s.variableAt? other := by
  obtain ⟨i⟩ := id
  obtain ⟨j⟩ := other
  simp only [setVariable, variableAt?, Array.getElem?_modify, VariableId.mk.injEq]

/-- A variable has the value that it was given last. -/
theorem valueOf_setVariable (s : Store) {id : VariableId} {x : Variable}
    (h : s.variableAt? id = some x) (v : Value) : (s.setVariable id v).valueOf id = v := by
  simp only [variableAt?] at h
  simp [valueOf, variableAt?, setVariable, Array.getElem?_modify, h]

/-- Assigning to a variable leaves the others. -/
theorem variableAt?_setVariable_of_ne (s : Store) {id other : VariableId} (h : id ≠ other)
    (v : Value) : (s.setVariable id v).variableAt? other = s.variableAt? other := by
  have hi : id.index ≠ other.index := fun he => h (VariableId.mk.injEq .. ▸ he)
  simp [variableAt?, setVariable, Array.getElem?_modify, hi]

/-! ## Objects -/

/-- Writing a property reaches the object that it belongs to and no other. -/
theorem objectAt?_setProperty (s : Store) (id other : ObjectId) (name : String) (p : Property) :
    (s.setProperty id name p).objectAt? other =
      if id = other then
        (s.objectAt? other).map fun o => { o with properties := o.properties.put name p }
      else s.objectAt? other := by
  obtain ⟨i⟩ := id
  obtain ⟨j⟩ := other
  simp only [setProperty, objectAt?, Array.getElem?_modify, ObjectId.mk.injEq]

/-- Giving an object a prototype reaches that object and no other. -/
theorem objectAt?_setPrototype (s : Store) (id other : ObjectId) (prototype : Option ObjectId) :
    (s.setPrototype id prototype).objectAt? other =
      if id = other then (s.objectAt? other).map fun o => { o with prototype }
      else s.objectAt? other := by
  obtain ⟨i⟩ := id
  obtain ⟨j⟩ := other
  simp only [setPrototype, objectAt?, Array.getElem?_modify, ObjectId.mk.injEq]

/-- Writing a property leaves what objects fall back on. -/
@[simp] theorem prototype?_setProperty (s : Store) (id other : ObjectId) (name : String)
    (p : Property) : (s.setProperty id name p).prototype? other = s.prototype? other := by
  simp only [prototype?, objectAt?, setProperty, Array.getElem?_modify]
  split
  · cases s.objects[other.index]? <;> rfl
  · rfl

/-- Writing a property leaves the chains of objects. -/
@[simp] theorem prototypeChain_setProperty (s : Store) (id start : ObjectId) (name : String)
    (p : Property) : (s.setProperty id name p).prototypeChain start = s.prototypeChain start := by
  have hp : (s.setProperty id name p).prototype? = s.prototype? := by
    funext other
    exact prototype?_setProperty s id other name p
  have hs : (s.setProperty id name p).objects.size = s.objects.size := by simp [setProperty]
  rw [prototypeChain, prototypeChain, hp, hs]

/-- The properties of an object after one of them is written. -/
theorem properties_setProperty (s : Store) {id : ObjectId} {o : Object}
    (h : s.objectAt? id = some o) (name : String) (p : Property) :
    (s.setProperty id name p).properties id = (s.properties id).put name p := by
  simp only [objectAt?] at h
  simp [properties, objectAt?, setProperty, Array.getElem?_modify, h]

/-- A property that is nowhere on the chain of an object is undefined. -/
theorem getProperty_of_not_hasProperty {s : Store} {x : ObjectId} {name : String}
    (h : s.hasProperty x name = false) : s.getProperty x name = .undefined := by
  have hnone : (s.prototypeChain x).findSome? (fun o => (s.properties o).get? name) = none := by
    rw [List.findSome?_eq_none_iff]
    intro o ho
    have habsent := List.any_eq_false.mp h o ho
    rw [Table.contains, Option.not_isSome_iff_eq_none] at habsent
    exact habsent
  rw [getProperty, hnone]
  rfl

/-! ## Arrays -/

/-- Whatever is an element then was one before or is the new one. -/
theorem mem_elements_pushElement {s : Store} {id other : ArrayId} {v w : Value}
    (h : w ∈ (s.pushElement id v).elements other) : w ∈ s.elements other ∨ w = v := by
  simp only [elements, pushElement, Array.getElem?_modify] at h ⊢
  split at h
  · cases hs : s.arrays[other.index]? with
    | none =>
      rw [hs] at h
      simp at h
    | some old =>
      rw [hs] at h
      exact Array.mem_push.mp h
  · exact Or.inl h

end Scriptlet.Store
