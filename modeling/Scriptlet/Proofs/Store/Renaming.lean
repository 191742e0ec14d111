import Mathlib.Logic.Equiv.Basic
import Scriptlet.Machine.Call
import Scriptlet.Proofs.Store.Layout
import Scriptlet.Store.View

/-!
# The store does not look at the names of objects

Which cell an object or function lives in is a matter of when it was made. `s.Renamed π s'` says
that `s'` is `s` with every object moved to another cell by `π`, and with the entries of its scopes
in any order: a table is only ever asked what a name stands for. Cells that are still to come are
not moved, so that both stores hand out the same ones.

No question to a store is answered differently in `s'`, other than by the cells of objects in the
answer, and every change keeps the two in step.
-/

namespace Scriptlet

/-! ## Values with other cells -/

/-- The value with its object in another cell. -/
def Value.renamed (π : Equiv.Perm ObjectId) : Value → Value
  | .object id => .object (π id)
  | v => v

/-- The entity with its function in another cell. -/
def Entity.renamed (π : Equiv.Perm ObjectId) : Entity → Entity
  | .fn id => .fn (π id)
  | e => e

/-- The variable with the object in it in another cell. -/
def Variable.renamed (π : Equiv.Perm ObjectId) (x : Variable) : Variable :=
  { x with value := x.value.renamed π }

/-- The property with the object in it in another cell. -/
def Property.renamed (π : Equiv.Perm ObjectId) (p : Property) : Property :=
  { p with value := p.value.renamed π }

/-- The table with its entries changed and its names as they are. -/
def Table.mapEntries {β γ : Type} (f : β → γ) (t : Table β) : Table γ :=
  t.map fun pair => (pair.1, f pair.2)

/-- The object with all that it refers to in other cells. The code of a function refers to none. -/
def Object.renamed (π : Equiv.Perm ObjectId) (o : Object) : Object where
  prototype := o.prototype.map π
  properties := o.properties.mapEntries (Property.renamed π)
  function := o.function

section

variable (π : Equiv.Perm ObjectId)

@[simp] theorem Value.renamed_undefined : Value.undefined.renamed π = .undefined := rfl

@[simp] theorem Value.renamed_primitive (p : Primitive) (box : Nat) :
    (Value.primitive p box).renamed π = .primitive p box := rfl

@[simp] theorem Value.renamed_object (id : ObjectId) :
    (Value.object id).renamed π = .object (π id) := rfl

@[simp] theorem Value.renamed_array (id : ArrayId) : (Value.array id).renamed π = .array id := rfl

@[simp] theorem Value.detach_renamed (v : Value) :
    (v.renamed π).detach = v.detach.renamed π := by cases v <;> rfl

@[simp] theorem Value.truthy_renamed (v : Value) : (v.renamed π).truthy = v.truthy := by
  cases v <;> rfl

@[simp] theorem Value.numeral?_renamed (v : Value) : (v.renamed π).numeral? = v.numeral? := by
  cases v <;> rfl

@[simp] theorem Value.characters?_renamed (v : Value) :
    (v.renamed π).characters? = v.characters? := by
  cases v <;> rfl

/-- Objects are compared by their cells, and no two of them come into one cell. -/
@[simp] theorem Value.equal_renamed (v w : Value) :
    (v.renamed π).equal (w.renamed π) = v.equal w := by
  have halike : (v.renamed π).alike (w.renamed π) = v.alike w := by
    cases v with
    | object id => cases w <;> simp [Value.renamed, Value.alike, BEq.beq]
    | _ => cases w <;> rfl
  simp only [equal, numeral?_renamed, halike]

end

/-! ## Tables -/

namespace Table

variable {β γ : Type} (f : β → γ) (t : Table β)

@[simp] theorem get?_mapEntries (name : String) :
    (t.mapEntries f).get? name = (t.get? name).map f := by
  induction t with
  | nil => rfl
  | cons pair rest ih =>
    obtain ⟨key, entry⟩ := pair
    show (if key = name then some (f entry) else (mapEntries f rest).get? name) = _
    rw [ih, get?]
    split <;> rfl

@[simp] theorem contains_mapEntries (name : String) :
    (t.mapEntries f).contains name = t.contains name := by
  rw [contains, get?_mapEntries, Option.isSome_map, contains]

@[simp] theorem keys_mapEntries : (t.mapEntries f).keys = t.keys := by
  simp [mapEntries, keys, Function.comp_def]

@[simp] theorem length_mapEntries : (t.mapEntries f).length = t.length := List.length_map ..

theorem put_mapEntries (name : String) (entry : β) :
    (t.mapEntries f).put name (f entry) = (t.put name entry).mapEntries f := by
  induction t with
  | nil => rfl
  | cons pair rest ih =>
    obtain ⟨key, old⟩ := pair
    show (if key = name then _ else (key, f old) :: (mapEntries f rest).put name (f entry)) = _
    rw [ih, put]
    split <;> rfl

/-- What is written behind a table counts for the names that the table does not have. -/
theorem get?_append_or (u : Table β) (name : String) :
    get? (t ++ u) name = (t.get? name).or (u.get? name) := by
  induction t with
  | nil => rfl
  | cons pair rest ih =>
    obtain ⟨key, entry⟩ := pair
    rw [List.cons_append, get?, get?, ih]
    split <;> rfl

theorem get?_remove (name other : String) :
    (t.remove name).get? other = if name = other then none else t.get? other := by
  induction t with
  | nil => simp [remove]
  | cons pair rest ih =>
    obtain ⟨key, entry⟩ := pair
    rw [remove] at ih
    by_cases hk : key = name
    · rw [remove, List.filter_cons_of_neg (by simpa using hk), ih, get?]
      split
      · rfl
      · next hne => rw [if_neg (by rw [hk]; exact hne)]
    · rw [remove, List.filter_cons_of_pos (by simpa using hk), get?, get?, ih]
      by_cases hn : name = other
      · simp [hn, hn ▸ hk]
      · simp [hn]

end Table

namespace Store

/-! ## Stores with other cells -/

/-- The one store is the other with its objects in other cells and its tables in any order. -/
structure Renamed (π : Equiv.Perm ObjectId) (s s' : Store) : Prop where
  scopes : s'.scopes.size = s.scopes.size
  owner : ∀ id, s'.owner id = s.owner id
  parent : ∀ id, s'.parent? id = s.parent? id
  entry : ∀ id name, (s'.entries id).get? name = ((s.entries id).get? name).map (Entity.renamed π)
  vars : s'.vars = s.vars.map (Variable.renamed π)
  arrays : s'.arrays = s.arrays.map (Array.map (Value.renamed π))
  objects : s'.objects.size = s.objects.size
  object : ∀ id, s'.objectAt? (π id) = (s.objectAt? id).map (Object.renamed π)
  /-- Cells that are still to come are not moved. -/
  fresh : ∀ id : ObjectId, s.objects.size ≤ id.index → π id = id

namespace Renamed

variable {π : Equiv.Perm ObjectId} {s s' : Store} (h : s.Renamed π s')
include h

/-! ## Cells -/

theorem variableAt? (id : VariableId) :
    s'.variableAt? id = (s.variableAt? id).map (Variable.renamed π) := by
  rw [Store.variableAt?, h.vars, Array.getElem?_map, Store.variableAt?]

theorem valueOf (id : VariableId) : s'.valueOf id = (s.valueOf id).renamed π := by
  rw [Store.valueOf, h.variableAt?, Store.valueOf]
  cases s.variableAt? id <;> rfl

theorem elements (id : ArrayId) : s'.elements id = (s.elements id).map (Value.renamed π) := by
  rw [Store.elements, h.arrays, Array.getElem?_map, Store.elements]
  cases s.arrays[id.index]? <;> simp

theorem elementAt (id : ArrayId) (index : Int) :
    s'.elementAt id index = (s.elementAt id index).renamed π := by
  rw [Store.elementAt, h.elements, Store.elementAt]
  split
  · rfl
  · rw [Array.getElem?_map]
    cases (s.elements id)[index.toNat]? <;> rfl

theorem function? (id : ObjectId) : s'.function? (π id) = s.function? id := by
  rw [Store.function?, h.object, Store.function?]
  cases s.objectAt? id <;> rfl

theorem properties (id : ObjectId) :
    s'.properties (π id) = (s.properties id).mapEntries (Property.renamed π) := by
  rw [Store.properties, h.object, Store.properties]
  cases s.objectAt? id <;> rfl

theorem prototype? (id : ObjectId) : s'.prototype? (π id) = (s.prototype? id).map π := by
  rw [Store.prototype?, h.object, Store.prototype?]
  cases s.objectAt? id <;> rfl

/-! ## Chains -/

theorem prototypeChain (id : ObjectId) :
    s'.prototypeChain (π id) = (s.prototypeChain id).map π := by
  have hfollow : ∀ bound id,
      follow s'.prototype? bound (π id) = (follow s.prototype? bound id).map π := by
    intro bound
    induction bound with
    | zero => exact fun _ => rfl
    | succ bound ih =>
      intro id
      rw [follow, follow, h.prototype?]
      cases s.prototype? id with
      | none => rfl
      | some p => simp [ih]
  rw [Store.prototypeChain, h.objects, hfollow, Store.prototypeChain]

theorem scopeChain (id : ScopeId) : s'.scopeChain id = s.scopeChain id := by
  rw [Store.scopeChain, funext h.parent, h.scopes, Store.scopeChain]

theorem resolve? (id : ScopeId) (name : String) :
    s'.resolve? id name = (s.resolve? id name).map (Entity.renamed π) := by
  rw [Store.resolve?, h.scopeChain, Store.resolve?, List.map_findSome?]
  exact congrArg (List.findSome? · _) (funext fun i => h.entry i name)

theorem contains (id : ScopeId) (name : String) :
    (s'.entries id).contains name = (s.entries id).contains name := by
  rw [Table.contains, h.entry, Option.isSome_map, Table.contains]

theorem isFree (id : ScopeId) (name : String) : s'.isFree id name = s.isFree id name := by
  rw [Store.isFree, h.contains, Store.isFree]

theorem checkFree (id : ScopeId) (name : String) :
    s'.checkFree id name = s.checkFree id name := by
  rw [Store.checkFree, h.isFree, h.owner, Store.checkFree]

theorem checkMutable (id : VariableId) : s'.checkMutable id = s.checkMutable id := by
  rw [Store.checkMutable, h.variableAt?, Store.checkMutable]
  cases s.variableAt? id <;> rfl

/-! ## Objects -/

theorem getProperty (id : ObjectId) (name : String) :
    s'.getProperty (π id) name = (s.getProperty id name).renamed π := by
  have hfound : ∀ chain : List ObjectId,
      (chain.map π).findSome? (fun o => (s'.properties o).get? name) =
        (chain.findSome? fun o => (s.properties o).get? name).map (Property.renamed π) := by
    intro chain
    rw [List.findSome?_map, List.map_findSome?]
    refine congrArg (List.findSome? · chain) (funext fun o => ?_)
    show (s'.properties (π o)).get? name = _
    rw [h.properties, Table.get?_mapEntries]
    rfl
  rw [Store.getProperty, h.prototypeChain, hfound, Store.getProperty]
  cases (s.prototypeChain id).findSome? fun o => (s.properties o).get? name <;> rfl

theorem hasProperty (id : ObjectId) (name : String) :
    s'.hasProperty (π id) name = s.hasProperty id name := by
  rw [Store.hasProperty, h.prototypeChain, List.any_map, Store.hasProperty]
  refine congrArg (List.any _) (funext fun o => ?_)
  show (s'.properties (π o)).contains name = _
  rw [h.properties, Table.contains_mapEntries]

/-- An object is in the chain of another exactly when it is so in its new cell. -/
theorem contains_prototypeChain (id other : ObjectId) :
    (s'.prototypeChain (π id)).contains (π other) = (s.prototypeChain id).contains other := by
  rw [h.prototypeChain, Bool.eq_iff_iff]
  simp

theorem inherits (id prototype : ObjectId) :
    s'.inherits (π id) (π prototype) = s.inherits id prototype := by
  rw [Store.inherits, h.contains_prototypeChain, Store.inherits]
  congr 1
  rw [Bool.eq_iff_iff]
  simp

theorem checkPrototype (id : ObjectId) (prototype : Option ObjectId) :
    s'.checkPrototype (π id) (prototype.map π) = s.checkPrototype id prototype := by
  cases prototype with
  | none => rfl
  | some p =>
    simp only [Store.checkPrototype, Option.map_some, Option.any_some, h.contains_prototypeChain]

/-! ## Names and kinds -/

theorem entityName (e : Entity) : s'.entityName (e.renamed π) = s.entityName e := by
  cases e with
  | var id =>
    rw [Entity.renamed, Store.entityName, h.variableAt?, Store.entityName]
    · cases s.variableAt? id <;> rfl
    · simp
  | fn id =>
    rw [Entity.renamed, Store.entityName, h.function?, Store.entityName]
  | mod m => rfl

theorem isExported (e : Entity) : s'.isExported (e.renamed π) = s.isExported e := by
  cases e with
  | var id =>
    rw [Entity.renamed, Store.isExported, h.variableAt?, Store.isExported]
    · cases s.variableAt? id <;> rfl
    · simp
  | fn id => rw [Entity.renamed, Store.isExported, h.function?, Store.isExported]
  | mod m => rfl

theorem typeName (v : Value) : s'.typeName (v.renamed π) = s.typeName v := by
  cases v with
  | object id => rw [Value.renamed_object, Store.typeName, h.function?, Store.typeName]
  | primitive p box => cases p <;> rfl
  | undefined | array | foreign => rfl

theorem mismatch (o : Operator) (a b : Value) :
    s'.mismatch o (a.renamed π) (b.renamed π) = s.mismatch o a b := by
  simp only [Store.mismatch, h.typeName]

/-! ## Texts -/

theorem nested : ∀ (limit depth : Nat) (v : Value),
    s'.nested limit depth (v.renamed π) = s.nested limit depth v
  | 0, _, _ => rfl
  | limit + 1, depth, v => by
    have ih : ∀ depth w, s'.nested limit depth (Value.renamed π w) = s.nested limit depth w :=
      nested limit
    cases v with
    | object id =>
      rw [Value.renamed_object, Store.nested, Store.nested, h.function?, h.properties]
      cases s.function? id with
      | some f => rfl
      | none => simp only [Table.mapEntries, List.mapM_map, Function.comp_def, Property.renamed, ih]
    | array id =>
      rw [Value.renamed_array, Store.nested, Store.nested, h.elements, Array.toList_map,
        List.mapM_map]
      simp only [Function.comp_def, ih]
    | undefined | primitive | foreign => rfl

theorem format (limit : Nat) (v : Value) :
    s'.format limit (v.renamed π) = s.format limit v := by
  cases v with
  | primitive p box => rfl
  | undefined | object | array | foreign => exact h.nested limit 0 _

/-! ## Operators and members -/

theorem arithmetic (limit : Nat) (o : Operator) (a b : Value) :
    s'.arithmetic limit o (a.renamed π) (b.renamed π) =
      (s.arithmetic limit o a b).map (Value.renamed π) := by
  have hstring : ∀ v : Value, isString (v.renamed π) = isString v := fun v => by cases v <;> rfl
  simp only [Store.arithmetic, Value.numeral?_renamed, hstring, h.format, h.mismatch]
  split
  · next m n _ _ =>
    cases o.onNumerals m n with
    | error f => rfl
    | ok r => cases r <;> rfl
  · split
    · cases s.format limit a with
      | error f => rfl
      | ok left => cases s.format limit b <;> rfl
    · rfl

theorem compare (o : Operator) (a b : Value) :
    s'.compare o (a.renamed π) (b.renamed π) = (s.compare o a b).map (Value.renamed π) := by
  simp only [Store.compare, Value.numeral?_renamed, Value.characters?_renamed, h.mismatch]
  split <;> rfl

theorem membership (key container : Value) :
    s'.membership (key.renamed π) (container.renamed π) =
      (s.membership key container).map (Value.renamed π) := by
  have hmismatch := congrArg (Except.error (α := Value)) (h.mismatch .isIn key container)
  cases container with
  | array id =>
    cases key with
    | primitive p box =>
      cases p with
      | int n =>
        show Except.ok (Value.bool (decide (0 ≤ n) && decide (n < (s'.elements id).size))) = _
        rw [h.elements, Array.size_map]
        rfl
      | _ => exact hmismatch
    | _ => exact hmismatch
  | object id =>
    simp only [Value.renamed_object, Store.membership, Value.characters?_renamed]
    cases key.characters? with
    | some name => exact congrArg (Except.ok ∘ Value.bool) (h.hasProperty id name)
    | none => exact hmismatch
  | _ => exact hmismatch

theorem operate (limit : Nat) (o : Operator) (a b : Value) :
    s'.operate limit o (a.renamed π) (b.renamed π) =
      (s.operate limit o a b).map (Value.renamed π) := by
  simp only [Store.operate, h.arithmetic, h.compare, h.membership, Value.equal_renamed]
  split
  · rfl
  · split
    · rfl
    · split <;> rfl

theorem isOfType (v : Value) (name : String) :
    s'.isOfType (v.renamed π) name = s.isOfType v name := by
  by_cases hname : name = "Object"
  · subst hname
    cases v with
    | object id => rfl
    | _ => exact congrArg (· == "Object") (h.typeName _)
  · have hkind : ∀ (t : Store) (w : Value), t.isOfType w name = (t.typeName w == name) := by
      intro t w
      unfold Store.isOfType
      split
      · contradiction
      · rfl
    rw [hkind, hkind, h.typeName]

theorem isInstance (v prototype : Value) :
    s'.isInstance (v.renamed π) (prototype.renamed π) = s.isInstance v prototype := by
  cases prototype with
  | object p =>
    cases v with
    | object id => exact congrArg Except.ok (h.inherits id p)
    | _ => rfl
  | _ => exact congrArg (Except.error ∘ Fault.badInstanceOf) (h.typeName _)

theorem readMember (limit : Nat) (target : Value) (name : String) :
    s'.readMember limit (target.renamed π) name =
      (s.readMember limit target name).map (Value.renamed π) := by
  -- a value that has no members is shown in the fault
  have hrefused : ∀ v : Value,
      (do Except.error (.unreadableMember name (← s'.format limit (v.renamed π))) :
        Except Fault Value) =
      (do Except.error (.unreadableMember name (← s.format limit v)) :
        Except Fault Value).map (Value.renamed π) := by
    intro v
    rw [h.format]
    cases s.format limit v <;> rfl
  cases target with
  | object id => exact congrArg Except.ok (h.getProperty id name)
  | array id =>
    show Except.ok (if name = "length" then Value.int (s'.elements id).size else .undefined) = _
    rw [h.elements, Array.size_map]
    show _ = Except.ok (Value.renamed π (if _ then _ else _))
    split <;> rfl
  | primitive p box =>
    cases p with
    | string text =>
      show (if name = "length" then _ else _) = Except.map _ (if name = "length" then _ else _)
      split <;> rfl
    | _ => exact hrefused (.primitive _ box)
  | undefined | foreign => exact hrefused _

/-! ## Names -/

theorem entityValue (e : Entity) (name : String) :
    s'.entityValue (e.renamed π) name = (s.entityValue e name).map (Value.renamed π) := by
  cases e with
  | var id =>
    show Except.ok (s'.valueOf id).detach = Except.ok ((s.valueOf id).detach.renamed π)
    rw [h.valueOf, Value.detach_renamed]
  | fn | mod => rfl

theorem member (m : Module) (name : String) :
    s'.member m name = (s.member m name).map (Entity.renamed π) := by
  rw [Store.member, h.entry, Store.member]
  cases (s.entries m.scope).get? name with
  | none => rfl
  | some e =>
    show (if s'.isExported (e.renamed π) then _ else _) =
      Except.map _ (if s.isExported e then _ else _)
    rw [h.isExported]
    split <;> rfl

theorem pathModule (id : ScopeId) : ∀ (limit : Nat) (node : Node),
    s'.pathModule id limit node = s.pathModule id limit node
  | 0, _ => rfl
  | limit + 1, node => by
    cases node with
    | identifier line name =>
      rw [Store.pathModule, h.resolve?, Store.pathModule]
      cases s.resolve? id name with
      | none => rfl
      | some e => cases e <;> rfl
    | moduleAccess line outer name =>
      rw [Store.pathModule, pathModule id limit outer, Store.pathModule]
      cases s.pathModule id limit outer with
      | error f => rfl
      | ok m =>
        show (do asModule (← s'.member m name) name) = do asModule (← s.member m name) name
        rw [h.member]
        cases s.member m name with
        | error f => rfl
        | ok e => cases e <;> rfl
    | _ => simp only [Store.pathModule]

theorem calleeOf (scope : ScopeId) (name : String) :
    s'.calleeOf scope name = (s.calleeOf scope name).map π := by
  rw [Store.calleeOf, h.resolve?, Store.calleeOf]
  cases s.resolve? scope name with
  | none => rfl
  | some e =>
    cases e with
    | fn | mod => rfl
    | var x =>
      dsimp only [Option.map_some, Entity.renamed]
      rw [h.valueOf]
      cases s.valueOf x with
      | object id =>
        show (if (s'.function? (π id)).isSome then _ else _) =
          Except.map π (if (s.function? id).isSome then _ else _)
        rw [h.function?]
        split <;> rfl
      | _ => rfl

theorem asFunction (limit : Nat) (v : Value) :
    s'.asFunction limit (v.renamed π) = (s.asFunction limit v).map π := by
  have hrefused : (do Except.error (.uncallableValue (← s'.format limit (v.renamed π))) :
        Except Fault ObjectId) =
      (do Except.error (.uncallableValue (← s.format limit v)) : Except Fault ObjectId).map π := by
    rw [h.format]
    cases s.format limit v <;> rfl
  cases v with
  | object id =>
    show (if (s'.function? (π id)).isSome then _ else _) =
      Except.map π (if (s.function? id).isSome then _ else _)
    rw [h.function?]
    split
    · rfl
    · exact hrefused
  | _ => exact hrefused

theorem checkArity (id : ObjectId) (count : Nat) :
    s'.checkArity (π id) count = s.checkArity id count := by
  rw [Store.checkArity, h.function?, Store.checkArity]

/-! ## New cells -/

/-- The next cell is not moved, and no other cell comes to its place. -/
theorem index_eq_next (id : ObjectId) :
    (π id).index = s.objects.size ↔ id.index = s.objects.size := by
  have hnext : π ⟨s.objects.size⟩ = ⟨s.objects.size⟩ := h.fresh _ (Nat.le_refl _)
  have hiff : ∀ i : ObjectId, i.index = s.objects.size ↔ i = ⟨s.objects.size⟩ := fun ⟨i⟩ => by simp
  rw [hiff, hiff]
  exact ⟨fun he => π.injective (he.trans hnext.symm), fun he => by rw [he, hnext]⟩

theorem addScope (owner : String) (parent : Option ScopeId) :
    (s.addScope owner parent).2.Renamed π (s'.addScope owner parent).2 :=
  { h with
    scopes := by simp [Store.addScope, h.scopes]
    owner := fun id => by
      rw [Store.owner, Store.owner, scopeAt?_addScope, scopeAt?_addScope, h.scopes]
      split
      · rfl
      · exact h.owner id
    parent := fun id => by
      rw [parent?, parent?, scopeAt?_addScope, scopeAt?_addScope, h.scopes]
      split
      · rfl
      · exact h.parent id
    entry := fun id name => by
      rw [entries, entries, scopeAt?_addScope, scopeAt?_addScope, h.scopes]
      split
      · rfl
      · exact h.entry id name }

theorem addVariable (x : Variable) :
    (s.addVariable x).2.Renamed π (s'.addVariable (x.renamed π)).2 :=
  { h with vars := by simp [Store.addVariable, h.vars] }

theorem addArray (items : Array Value) :
    (s.addArray items).2.Renamed π (s'.addArray (items.map (Value.renamed π))).2 :=
  { h with arrays := by simp [Store.addArray, h.arrays] }

theorem addObject (o : Object) : (s.addObject o).2.Renamed π (s'.addObject (o.renamed π)).2 :=
  { h with
    objects := by simp [Store.addObject, h.objects]
    object := fun id => by
      simp only [objectAt?_addObject, h.objects, h.index_eq_next]
      split
      · rfl
      · exact h.object id
    fresh := fun id hid => by
      refine h.fresh id (Nat.le_trans ?_ hid)
      simp [Store.addObject] }

/-! ## Changes -/

/-- Tables that say the same are changed to tables that say the same. -/
theorem modifyEntries (id : ScopeId) {f f' : Table Entity → Table Entity}
    (hf : ∀ t t' : Table Entity,
      (∀ name, t'.get? name = (t.get? name).map (Entity.renamed π)) →
      ∀ name, (f' t').get? name = ((f t).get? name).map (Entity.renamed π)) :
    (s.modifyEntries id f).Renamed π (s'.modifyEntries id f') :=
  { h with
    scopes := by simp [Store.modifyEntries, h.scopes]
    owner := fun other => by rw [owner_modifyEntries, owner_modifyEntries, h.owner]
    parent := fun other => by rw [parent?_modifyEntries, parent?_modifyEntries, h.parent]
    entry := fun other => by
      by_cases hid : id = other
      · subst hid
        have hentry := h.entry id
        rw [entries, entries] at hentry ⊢
        rw [scopeAt?_modifyEntries, scopeAt?_modifyEntries, if_pos rfl, if_pos rfl]
        cases hs : s.scopeAt? id with
        | none =>
          have hs' : s'.scopeAt? id = none := by
            rw [scopeAt?, Array.getElem?_eq_none_iff] at hs ⊢
            rwa [h.scopes]
          rw [hs']
          exact fun _ => rfl
        | some c =>
          have hlt : id.index < s.scopes.size := (Array.getElem?_eq_some_iff.mp hs).1
          have hs' : s'.scopeAt? id = some _ := Array.getElem?_eq_getElem (h.scopes ▸ hlt)
          rw [hs, hs'] at hentry
          rw [hs']
          exact hf _ _ hentry
      · rw [entries_modifyEntries_of_ne _ hid, entries_modifyEntries_of_ne _ hid]
        exact h.entry other }

theorem bind (id : ScopeId) (name : String) (e : Entity) :
    (s.bind id name e).Renamed π (s'.bind id name (e.renamed π)) := by
  refine h.modifyEntries id fun t t' ht other => ?_
  rw [Table.get?_append_or, Table.get?_append_or, ht, Option.map_or]
  congr 1
  exact Table.get?_mapEntries (Entity.renamed π) [(name, e)] other

theorem clean (id : ScopeId) : (s.clean id).Renamed π (s'.clean id) :=
  h.modifyEntries id fun _ _ _ _ => rfl

theorem remove (id : ScopeId) (name : String) :
    (s.modifyEntries id (·.remove name)).Renamed π (s'.modifyEntries id (·.remove name)) := by
  refine h.modifyEntries id fun t t' ht other => ?_
  rw [Table.get?_remove, Table.get?_remove, ht]
  split <;> rfl

theorem setVariable (id : VariableId) (v : Value) :
    (s.setVariable id v).Renamed π (s'.setVariable id (v.renamed π)) :=
  { h with
    vars := by
      rw [Store.setVariable, Store.setVariable, h.vars, modify_map]
      exact fun _ => rfl }

theorem pushElement (id : ArrayId) (v : Value) :
    (s.pushElement id v).Renamed π (s'.pushElement id (v.renamed π)) :=
  { h with
    arrays := by
      rw [Store.pushElement, Store.pushElement, h.arrays, modify_map]
      exact fun items => Array.map_push.symm }

theorem setProperty (id : ObjectId) (name : String) (p : Property) :
    (s.setProperty id name p).Renamed π (s'.setProperty (π id) name (p.renamed π)) :=
  { h with
    objects := by simp [Store.setProperty, h.objects]
    object := fun other => by
      simp only [objectAt?_setProperty, π.apply_eq_iff_eq, h.object]
      split
      · cases s.objectAt? other with
        | none => rfl
        | some o => simp [Object.renamed, Table.put_mapEntries]
      · rfl
    fresh := fun other hother => h.fresh other (by simpa [Store.setProperty] using hother) }

theorem setPrototype (id : ObjectId) (prototype : Option ObjectId) :
    (s.setPrototype id prototype).Renamed π (s'.setPrototype (π id) (prototype.map π)) :=
  { h with
    objects := by simp [Store.setPrototype, h.objects]
    object := fun other => by
      simp only [objectAt?_setPrototype, π.apply_eq_iff_eq, h.object]
      split
      · cases s.objectAt? other <;> rfl
      · rfl
    fresh := fun other hother => h.fresh other (by simpa [Store.setPrototype] using hother) }

end Renamed

end Store

end Scriptlet
