import Scriptlet.Proofs.Store.Reference
import Scriptlet.Proofs.Store.Renaming

/-!
# Two functions in each other's cells

Two functions that a scope declares one after the other come into two cells in a row. If the other
one is declared first, they come into each other's cells, and nothing else is different
(`Store.withFunction_swapped`): a store that is closed does not refer to cells that are still to
come, so exchanging them leaves all that was there before as it is.
-/

namespace Scriptlet

/-! ## Cells that are not moved -/

section

variable {π : Equiv.Perm ObjectId} {s : Store}

theorem Value.renamed_of_holds (hfix : ∀ id, s.Has (.object id) → π id = id) {v : Value}
    (h : s.Holds v) : v.renamed π = v := by
  cases v with
  | object id => rw [renamed_object, hfix id ((Store.holds_object id).mp h)]
  | undefined | primitive | array | foreign => rfl

theorem Entity.renamed_of_has (hfix : ∀ id, s.Has (.object id) → π id = id) {e : Entity}
    (h : s.Has e.ref) : e.renamed π = e := by
  cases e with
  | fn id => rw [renamed, hfix id (Store.Has.object_of_function h)]
  | var | mod => rfl

namespace Store.Closed

variable (hc : s.Closed) (hfix : ∀ id, s.Has (.object id) → π id = id)
include hc hfix

/-! A closed store refers to its own cells only, so moving others leaves it as it is. -/

theorem get?_renamed (id : ScopeId) (name : String) :
    ((s.entries id).get? name).map (Entity.renamed π) = (s.entries id).get? name := by
  cases h : (s.entries id).get? name with
  | none => rfl
  | some e =>
    have he : s.Has e.ref := hc.entry (Table.mem_of_get? h)
    rw [Option.map_some, Entity.renamed_of_has hfix he]

theorem vars_renamed : s.vars.map (Variable.renamed π) = s.vars := by
  refine Array.ext_getElem? fun i => ?_
  rw [Array.getElem?_map]
  cases h : s.vars[i]? with
  | none => rfl
  | some x =>
    have hx : s.Holds x.value := by
      have hvalue := hc.value ⟨i⟩
      rwa [valueOf, variableAt?, h] at hvalue
    rw [Option.map_some, Variable.renamed, Value.renamed_of_holds hfix hx]

theorem arrays_renamed : s.arrays.map (Array.map (Value.renamed π)) = s.arrays := by
  refine Array.ext_getElem? fun i => ?_
  rw [Array.getElem?_map]
  cases h : s.arrays[i]? with
  | none => rfl
  | some items =>
    have hitems : ∀ v ∈ items, v.renamed π = v := by
      intro v hv
      have helement : v ∈ s.elements ⟨i⟩ := by rwa [elements, h]
      exact Value.renamed_of_holds hfix (hc.element helement)
    rw [Option.map_some, Array.map_congr_left hitems, Array.map_id']

theorem objectAt?_renamed (id : ObjectId) :
    (s.objectAt? id).map (Object.renamed π) = s.objectAt? id := by
  cases h : s.objectAt? id with
  | none => rfl
  | some o =>
    have hprototype : o.prototype.map π = o.prototype := by
      cases hp : o.prototype with
      | none => rfl
      | some p =>
        have hfound : s.prototype? id = some p := by rwa [prototype?, h]
        rw [Option.map_some, hfix p (hc.prototype hfound)]
    have hproperties : o.properties.mapEntries (Property.renamed π) = o.properties := by
      have hsame : ∀ pair ∈ o.properties, (pair.1, pair.2.renamed π) = pair := by
        intro pair hpair
        have hfound : pair ∈ s.properties id := by rwa [properties, h]
        rw [Property.renamed, Value.renamed_of_holds hfix (hc.property hfound)]
      rw [Table.mapEntries, List.map_congr_left hsame, List.map_id']
    rw [Option.map_some, Object.renamed, hprototype, hproperties]

end Store.Closed

end

/-! ## Two new functions -/

namespace Store

/-- The object that a new function is. -/
def functionObject (f : Function) : Object := ⟨none, [], some f⟩

/-- The store with a new function that a scope declares. -/
def withFunction (s : Store) (scope : ScopeId) (f : Function) : Store :=
  (s.addObject (functionObject f)).2.bind scope f.name (.fn ⟨s.objects.size⟩)

variable {s : Store} {scope : ScopeId}

theorem size_withFunction (s : Store) (scope : ScopeId) (f : Function) :
    (s.withFunction scope f).objects.size = s.objects.size + 1 := Array.size_push ..

theorem objectAt?_withFunction (s : Store) (scope : ScopeId) (f : Function) (id : ObjectId) :
    (s.withFunction scope f).objectAt? id =
      if id.index = s.objects.size then some (functionObject f) else s.objectAt? id :=
  s.objectAt?_addObject (functionObject f) id

theorem owner_withFunction (s : Store) (scope : ScopeId) (f : Function) (id : ScopeId) :
    (s.withFunction scope f).owner id = s.owner id := owner_modifyEntries ..

theorem parent?_withFunction (s : Store) (scope : ScopeId) (f : Function) (id : ScopeId) :
    (s.withFunction scope f).parent? id = s.parent? id := parent?_modifyEntries ..

theorem has_scope_withFunction (h : s.Has (.scope scope)) (f : Function) :
    (s.withFunction scope f).Has (.scope scope) := by
  show scope.index < (s.withFunction scope f).scopes.size
  rw [withFunction, bind, modifyEntries, Array.size_modify]
  exact h

theorem get?_withFunction (h : s.Has (.scope scope)) (f : Function) (name : String) :
    ((s.withFunction scope f).entries scope).get? name =
      ((s.entries scope).get? name).or
        (if f.name = name then some (.fn ⟨s.objects.size⟩) else none) := by
  have hscope : (s.addObject (functionObject f)).2.scopeAt? scope = some _ :=
    Array.getElem?_eq_getElem h
  rw [withFunction, entries_bind _ hscope, Table.get?_append_or]
  rfl

theorem get?_withFunction_of_ne (h : s.Has (.scope scope)) {f : Function} {name : String}
    (hne : f.name ≠ name) :
    ((s.withFunction scope f).entries scope).get? name = (s.entries scope).get? name := by
  rw [get?_withFunction h, if_neg hne, Option.or_none]

theorem entries_withFunction_of_ne {other : ScopeId} (h : scope ≠ other) (f : Function) :
    (s.withFunction scope f).entries other = s.entries other :=
  entries_modifyEntries_of_ne _ h _

/-- The two names stand the other way round in the table, for each other's cells. -/
theorem get?_withFunction_swapped {π : Equiv.Perm ObjectId} (hscope : s.Has (.scope scope))
    {f g : Function} (hne : f.name ≠ g.name)
    (hold : ∀ name, ((s.entries scope).get? name).map (Entity.renamed π) =
      (s.entries scope).get? name)
    (hfirst : π ⟨s.objects.size⟩ = ⟨s.objects.size + 1⟩)
    (hsecond : π ⟨s.objects.size + 1⟩ = ⟨s.objects.size⟩) (name : String) :
    (((s.withFunction scope g).withFunction scope f).entries scope).get? name =
      ((((s.withFunction scope f).withFunction scope g).entries scope).get? name).map
        (Entity.renamed π) := by
  have hf : (if f.name = name then some (Entity.fn ⟨s.objects.size⟩) else none).map
      (Entity.renamed π) = if f.name = name then some (.fn ⟨s.objects.size + 1⟩) else none := by
    split
    · rw [Option.map_some, Entity.renamed, hfirst]
    · rfl
  have hg : (if g.name = name then some (Entity.fn ⟨s.objects.size + 1⟩) else none).map
      (Entity.renamed π) = if g.name = name then some (.fn ⟨s.objects.size⟩) else none := by
    split
    · rw [Option.map_some, Entity.renamed, hsecond]
    · rfl
  rw [get?_withFunction (has_scope_withFunction hscope g), get?_withFunction hscope,
    get?_withFunction (has_scope_withFunction hscope f), get?_withFunction hscope,
    size_withFunction, size_withFunction, Option.map_or, Option.map_or, hold, hf, hg,
    Option.or_assoc, Option.or_assoc]
  congr 1
  by_cases hname : f.name = name
  · rw [if_pos hname, if_neg fun hg => hne (hname.trans hg.symm)]
    rfl
  · rw [if_neg hname, Option.or_none, Option.none_or]

/-- Of two new functions it makes no difference which one comes first, up to their cells. -/
theorem withFunction_swapped (hc : s.Closed) (hscope : s.Has (.scope scope)) {f g : Function}
    (hne : f.name ≠ g.name) :
    ((s.withFunction scope f).withFunction scope g).Renamed
      (Equiv.swap ⟨s.objects.size⟩ ⟨s.objects.size + 1⟩)
      ((s.withFunction scope g).withFunction scope f) := by
  have hfirst := Equiv.swap_apply_left (⟨s.objects.size⟩ : ObjectId) ⟨s.objects.size + 1⟩
  have hsecond := Equiv.swap_apply_right (⟨s.objects.size⟩ : ObjectId) ⟨s.objects.size + 1⟩
  have hother : ∀ id : ObjectId, id.index ≠ s.objects.size → id.index ≠ s.objects.size + 1 →
      Equiv.swap ⟨s.objects.size⟩ ⟨s.objects.size + 1⟩ id = id := by
    rintro ⟨i⟩ hi hi'
    exact Equiv.swap_apply_of_ne_of_ne (by simpa using hi) (by simpa using hi')
  generalize Equiv.swap (⟨s.objects.size⟩ : ObjectId) ⟨s.objects.size + 1⟩ = π at *
  have hfix : ∀ id, s.Has (.object id) → π id = id := by
    intro id hid
    have hlt : id.index < s.objects.size := hid
    exact hother id (by omega) (by omega)
  exact
    { scopes := by simp [withFunction, bind, modifyEntries, addObject]
      owner := fun id => by simp only [owner_withFunction]
      parent := fun id => by simp only [parent?_withFunction]
      entry := fun id name => by
        by_cases hid : scope = id
        · subst hid
          exact get?_withFunction_swapped hscope hne (hc.get?_renamed hfix scope) hfirst hsecond
            name
        · simp only [entries_withFunction_of_ne hid, hc.get?_renamed hfix]
      vars := (hc.vars_renamed hfix).symm
      arrays := (hc.arrays_renamed hfix).symm
      objects := by simp only [size_withFunction]
      object := fun id => by
        simp only [objectAt?_withFunction, size_withFunction]
        obtain ⟨i⟩ := id
        by_cases hi : i = s.objects.size
        · subst hi
          simp [hfirst, functionObject, Object.renamed, Table.mapEntries]
        · by_cases hi' : i = s.objects.size + 1
          · subst hi'
            simp [hsecond, functionObject, Object.renamed, Table.mapEntries]
          · simp only [hother ⟨i⟩ hi hi', hi, hi', if_false, hc.objectAt?_renamed hfix]
      fresh := fun id hid => by
        simp only [size_withFunction] at hid
        exact hother id (by omega) (by omega) }

end Store

end Scriptlet
