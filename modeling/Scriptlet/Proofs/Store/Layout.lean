import Scriptlet.Machine.Call
import Scriptlet.Store.Operation

/-!
# The store does not look at lines

The only trees in a store are those of the functions that a program defined. No question to a store
depends on the lines in them, and every change is the same with or without them. `Store.unlined` is
the store whose functions have lost their lines.
-/

namespace Scriptlet

/-! ## Without lines -/

/-- The function without the lines of its code. -/
def Closure.unlined (c : Closure) : Closure :=
  { c with body := c.body.map Node.unlined, result := c.result.unlined }

/-- What a function does, without lines. -/
def Callable.unlined : Callable → Callable
  | .closure c => .closure c.unlined
  | callable => callable

/-- The function without the lines of its code. -/
def Function.unlined (f : Function) : Function := { f with callable := f.callable.unlined }

/-- The object, without the lines of its code if it is a function. -/
def Object.unlined (o : Object) : Object := { o with function := o.function.map Function.unlined }

/-- The store without the lines of the functions in it. -/
def Store.unlined (s : Store) : Store := { s with objects := s.objects.map Object.unlined }

@[simp] theorem Node.kindName_unlined (node : Node) : node.unlined.kindName = node.kindName := by
  cases node <;> simp [Node.unlined, Node.kindName]

theorem Function.checkArity_unlined (f : Function) (count : Nat) :
    f.unlined.checkArity count = f.checkArity count := by
  obtain ⟨name, isExported, callable⟩ := f
  cases callable <;> rfl

@[simp] theorem Function.isDefined_unlined (f : Function) : f.unlined.isDefined = f.isDefined := by
  obtain ⟨name, isExported, callable⟩ := f
  cases callable <;> rfl

theorem Function.text_unlined (f : Function) : f.unlined.text = f.text := by
  obtain ⟨name, isExported, callable⟩ := f
  cases callable <;> rfl

namespace Store

variable (s : Store)

/-! ## Cells -/

theorem objectAt?_unlined (id : ObjectId) :
    s.unlined.objectAt? id = (s.objectAt? id).map Object.unlined := Array.getElem?_map ..

@[simp] theorem function?_unlined (id : ObjectId) :
    s.unlined.function? id = (s.function? id).map Function.unlined := by
  rw [function?, objectAt?_unlined, function?]
  cases s.objectAt? id <;> rfl

@[simp] theorem properties_unlined (id : ObjectId) :
    s.unlined.properties id = s.properties id := by
  rw [properties, objectAt?_unlined, properties]
  cases s.objectAt? id <;> rfl

@[simp] theorem prototypeChain_unlined (id : ObjectId) :
    s.unlined.prototypeChain id = s.prototypeChain id := by
  have hnext : s.unlined.prototype? = s.prototype? := by
    funext id
    rw [prototype?, objectAt?_unlined, prototype?]
    cases s.objectAt? id <;> rfl
  have hsize : s.unlined.objects.size = s.objects.size := Array.size_map ..
  rw [prototypeChain, prototypeChain, hnext, hsize]

@[simp] theorem elements_unlined (id : ArrayId) : s.unlined.elements id = s.elements id := rfl

@[simp] theorem elementAt_unlined (id : ArrayId) (index : Int) :
    s.unlined.elementAt id index = s.elementAt id index := rfl

@[simp] theorem entries_unlined (id : ScopeId) : s.unlined.entries id = s.entries id := rfl

@[simp] theorem owner_unlined (id : ScopeId) : s.unlined.owner id = s.owner id := rfl

@[simp] theorem resolve?_unlined (id : ScopeId) (name : String) :
    s.unlined.resolve? id name = s.resolve? id name := rfl

@[simp] theorem valueOf_unlined (id : VariableId) : s.unlined.valueOf id = s.valueOf id := rfl

/-! ## Questions -/

@[simp] theorem getProperty_unlined (id : ObjectId) (name : String) :
    s.unlined.getProperty id name = s.getProperty id name := by simp [getProperty]

@[simp] theorem hasProperty_unlined (id : ObjectId) (name : String) :
    s.unlined.hasProperty id name = s.hasProperty id name := by simp [hasProperty]

@[simp] theorem inherits_unlined (id prototype : ObjectId) :
    s.unlined.inherits id prototype = s.inherits id prototype := by simp [inherits]

theorem checkPrototype_unlined (id : ObjectId) (prototype : Option ObjectId) :
    s.unlined.checkPrototype id prototype = s.checkPrototype id prototype := by
  cases prototype <;> simp [checkPrototype]

@[simp] theorem entityName_unlined (e : Entity) : s.unlined.entityName e = s.entityName e := by
  cases e with
  | fn id =>
    rw [entityName, entityName, function?_unlined]
    cases s.function? id <;> rfl
  | var id => rfl
  | mod m => rfl

@[simp] theorem isExported_unlined (e : Entity) : s.unlined.isExported e = s.isExported e := by
  cases e with
  | fn id =>
    rw [isExported, isExported, function?_unlined]
    cases s.function? id <;> rfl
  | var id => rfl
  | mod m => rfl

@[simp] theorem typeName_unlined (v : Value) : s.unlined.typeName v = s.typeName v := by
  cases v with
  | object id => simp [typeName]
  | primitive p box => cases p <;> rfl
  | undefined | array | foreign => rfl

@[simp] theorem mismatch_unlined (o : Operator) (a b : Value) :
    s.unlined.mismatch o a b = s.mismatch o a b := by simp [mismatch]

theorem nested_unlined : ∀ (limit depth : Nat) (v : Value),
    s.unlined.nested limit depth v = s.nested limit depth v
  | 0, _, _ => rfl
  | limit + 1, depth, v => by
    have ih : s.unlined.nested limit = s.nested limit := by
      funext depth v
      exact nested_unlined limit depth v
    cases v with
    | object id =>
      simp only [nested, function?_unlined, properties_unlined, ih]
      cases s.function? id with
      | none => rfl
      | some f => exact f.text_unlined
    | array id => simp only [nested, elements_unlined, ih]
    | undefined | primitive | foreign => rfl

@[simp] theorem format_unlined (limit : Nat) (v : Value) :
    s.unlined.format limit v = s.format limit v := by
  cases v with
  | primitive p box => rfl
  | undefined | object | array | foreign => exact nested_unlined s limit 0 _

theorem operate_unlined (limit : Nat) (o : Operator) (a b : Value) :
    s.unlined.operate limit o a b = s.operate limit o a b := by
  have harithmetic : s.unlined.arithmetic limit o a b = s.arithmetic limit o a b := by
    simp only [arithmetic, format_unlined, mismatch_unlined]
  have hcompare : s.unlined.compare o a b = s.compare o a b := by
    simp only [compare, mismatch_unlined]
  have hmembership : s.unlined.membership a b = s.membership a b := by
    simp only [membership, hasProperty_unlined, mismatch_unlined]
    rfl
  unfold operate
  rw [harithmetic, hcompare, hmembership]

theorem isOfType_unlined (v : Value) (name : String) :
    s.unlined.isOfType v name = s.isOfType v name := by simp [isOfType]

theorem isInstance_unlined (v prototype : Value) :
    s.unlined.isInstance v prototype = s.isInstance v prototype := by simp [isInstance]

theorem readMember_unlined (limit : Nat) (target : Value) (name : String) :
    s.unlined.readMember limit target name = s.readMember limit target name := by simp [readMember]

@[simp] theorem member_unlined (m : Module) (name : String) :
    s.unlined.member m name = s.member m name := by simp [member]

theorem pathModule_unlined (id : ScopeId) : ∀ (limit : Nat) (node : Node),
    s.unlined.pathModule id limit node.unlined = s.pathModule id limit node
  | 0, _ => rfl
  | limit + 1, node => by
    cases node with
    | identifier line name => simp [Node.unlined, pathModule]
    | moduleAccess line outer name =>
      rw [Node.unlined, pathModule, pathModule, pathModule_unlined id limit outer]
      simp
    | _ => simp [Node.unlined, pathModule, Node.kindName]

theorem calleeOf_unlined (scope : ScopeId) (name : String) :
    s.unlined.calleeOf scope name = s.calleeOf scope name := by simp [calleeOf]

theorem asFunction_unlined (limit : Nat) (v : Value) :
    s.unlined.asFunction limit v = s.asFunction limit v := by simp [asFunction]

theorem checkArity_unlined (id : ObjectId) (count : Nat) :
    s.unlined.checkArity id count = s.checkArity id count := by
  rw [checkArity, function?_unlined, checkArity]
  cases s.function? id with
  | none => rfl
  | some f => exact f.checkArity_unlined count

/-! ## Changes -/

theorem addObject_unlined (o : Object) :
    s.unlined.addObject o.unlined = ((s.addObject o).1, (s.addObject o).2.unlined) := by
  simp [addObject, unlined]

/-- A cell may be changed before or after all cells are mapped. -/
theorem modify_map {α β : Type} {f : α → β} {g : α → α} {g' : β → β} (h : ∀ a, g' (f a) = f (g a))
    (cells : Array α) (index : Nat) :
    (cells.map f).modify index g' = (cells.modify index g).map f := by
  refine Array.ext_getElem? fun i => ?_
  simp only [Array.getElem?_modify, Array.getElem?_map]
  split
  · cases cells[i]? with
    | none => rfl
    | some a => simp [h]
  · rfl

theorem setProperty_unlined (id : ObjectId) (name : String) (p : Property) :
    s.unlined.setProperty id name p = (s.setProperty id name p).unlined := by
  simp only [setProperty, unlined]
  rw [modify_map]
  exact fun _ => rfl

theorem setPrototype_unlined (id : ObjectId) (prototype : Option ObjectId) :
    s.unlined.setPrototype id prototype = (s.setPrototype id prototype).unlined := by
  simp only [setPrototype, unlined]
  rw [modify_map]
  exact fun _ => rfl

end Store

end Scriptlet
