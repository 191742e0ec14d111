import Scriptlet.Proofs.Machine.Upkeep
import Scriptlet.Proofs.Store.Lasting

/-!
# Keys are distinct

A table is a list, but it never holds a name twice: it is built by writing one entry after the
other, and writing to a name that is there replaces its entry. So no object ever has two properties
of one name (`Store.Distinct`). That is an invariant that evaluation keeps up
(`Store.upkeep_distinct`).
-/

namespace Scriptlet

/-- No object has two properties of one name. -/
def Store.Distinct (s : Store) : Prop := ∀ id, (s.properties id).keys.Nodup

namespace Store

variable {s : Store}

theorem Distinct.addObject (h : s.Distinct) {o : Object} (ho : o.properties.keys.Nodup) :
    (s.addObject o).2.Distinct := by
  intro id
  rw [properties_addObject]
  split
  · exact ho
  · exact h id

theorem Distinct.setProperty (h : s.Distinct) (id : ObjectId) (name : String) (p : Property) :
    (s.setProperty id name p).Distinct := by
  intro other
  by_cases hne : id = other
  · subst hne
    cases ho : s.objectAt? id with
    | none =>
      rw [properties, objectAt?_setProperty, if_pos rfl, ho]
      exact List.nodup_nil
    | some o =>
      rw [properties_setProperty s ho]
      exact Table.nodup_keys_put (h id) name p
  · rw [properties_setProperty_of_ne s hne]
    exact h other

theorem Distinct.setPrototype (h : s.Distinct) (id : ObjectId) (prototype : Option ObjectId) :
    (s.setPrototype id prototype).Distinct := by
  intro other
  rw [properties_setPrototype]
  exact h other

/-- Nothing that evaluation does to a store gives an object a key twice. -/
theorem upkeep_distinct : Upkeep Distinct fun _ _ => True where
  addScope _ _ h := h
  addVariable _ h := h
  addObject _ ho h := h.addObject ho
  addArray _ h := h
  addBox h := h
  newVariable _ _ := trivial
  newFunction _ _ := trivial
  newModule _ _ := trivial
  bind _ _ _ _ h := h
  drop _ _ h := h
  setVariable _ _ h := h
  setProperty id name p h := h.setProperty id name p
  setPrototype id prototype h := h.setPrototype id prototype
  pushElement _ _ h := h

end Store

end Scriptlet
