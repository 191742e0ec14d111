import Scriptlet.Proofs.Machine.Unshared
import Scriptlet.Proofs.Session.CallPaths
import Scriptlet.Proofs.Session.Upkeep

/-!
# The laws of assignment

The target of an assignment is settled before the value is evaluated: the variable that the name
stands for then, or the object and its property. The evaluation of the value may do anything to
them, through closures or other names of the same object, before they are written. All the same, an
assignment is one change of what the evaluation of the value left, and what was written is what is
read next (`assignment_laws`).

* `Store.find?_of_same` : names stand for what they stood for, since an expression declares none.
* `Store.Assigned`, `Store.Written` : one variable, or one property, is another, and nothing else
  is.
-/

namespace Scriptlet

/-! ## Resolution -/

section

variable {α β : Type}

/-- Finding what the first member gives is finding the first member that gives something. -/
theorem findSome?_eq_some_iff_find? {f : α → Option β} {b : β} : ∀ {l : List α},
    l.findSome? f = some b ↔ ∃ a, l.find? (fun a => (f a).isSome) = some a ∧ f a = some b
  | [] => by simp
  | a :: l => by
    rw [List.findSome?_cons, List.find?_cons]
    cases hf : f a with
    | none => exact findSome?_eq_some_iff_find?
    | some c => simp [hf]

/-- Following the same links further only adds to the chain. -/
theorem follow_prefix {next next' : α → Option α} : ∀ {bound bound' : Nat} {a : α},
    bound ≤ bound' → (∀ b ∈ follow next bound a, next' b = next b) →
      follow next bound a <+: follow next' bound' a
  | 0, _, _, _, _ => List.nil_prefix
  | bound + 1, 0, _, hle, _ => absurd hle (by omega)
  | bound + 1, bound' + 1, a, hle, hsame => by
    rw [follow, List.forall_mem_cons] at hsame
    obtain ⟨ha, hsame⟩ := hsame
    rw [follow, follow, ha, List.prefix_cons_inj]
    cases hn : next a with
    | none => exact List.prefix_rfl
    | some b =>
      rw [hn] at hsame
      exact follow_prefix (Nat.le_of_succ_le_succ hle) hsame

end

namespace Store

variable {s s' : Store} {scope owner : ScopeId} {name : String} {e : Entity}

/-- A name stands for what the nearest scope that declares it has under it. -/
theorem resolve?_eq_some_iff : s.resolve? scope name = some e ↔
    ∃ owner, s.find? scope name = some owner ∧ (s.entries owner).get? name = some e :=
  findSome?_eq_some_iff_find?

theorem Closed.has_of_mem_follow (hc : s.Closed) (hscope : s.Has (.scope scope)) (bound : Nat) :
    ∀ id ∈ follow s.parent? bound scope, s.Has (.scope id) := by
  induction bound generalizing scope with
  | zero => simp [follow]
  | succ bound ih =>
    refine List.forall_mem_cons.mpr ⟨hscope, ?_⟩
    cases hp : s.parent? scope with
    | none => simp
    | some p => exact ih (hc.parent hp)

/-- The scopes that were there have their names and lie where they lay. -/
def SameScopes (s s' : Store) : Prop :=
  s.scopes.size ≤ s'.scopes.size ∧
    ∀ id, s.Has (.scope id) → s'.parent? id = s.parent? id ∧ s'.entries id = s.entries id

/-- The nearest scope that declares a name stays the nearest one. -/
theorem find?_of_same (hc : s.Closed) (hscope : s.Has (.scope scope)) (h : s.SameScopes s')
    (hfind : s.find? scope name = some owner) : s'.find? scope name = some owner := by
  have hthere := hc.has_of_mem_follow hscope s.scopes.size
  have hprefix : s.scopeChain scope <+: s'.scopeChain scope :=
    follow_prefix h.1 fun id hid => (h.2 id (hthere id hid)).1
  refine hprefix.find?_eq_some ?_
  rw [← hfind]
  refine List.find?_congr ?_
  intro id hid
  rw [(h.2 id (hthere id hid)).2]

end Store

/-- An expression of the grammar changes no scope that was there. -/
theorem Changes.sameScopes {s s' : Store} {scope : ScopeId}
    (h : Changes (.inScope s scope False) s s') : s.SameScopes s' := by
  refine ⟨?_, ?_⟩
  · refine h.keeps (P := fun t => s.scopes.size ≤ t.scopes.size) ?_ (Nat.le_refl _)
    exact fun hc hle => Nat.le_trans hle hc.size_le.1
  · intro id hid
    have hext := h.extends hid fun _ hd => hd
    exact ⟨hext.parent, hext.entries_eq (not_declares_inScope hid fun ho => ho.2)⟩

/-! ## Variables -/

/-- The second value is a copy of the first: the same primitive, or else the very same value. -/
def Value.Copies : Value → Value → Prop
  | .primitive p _, w => ∃ box, w = .primitive p box
  | v, w => w = v

theorem Value.copies_detach (v : Value) : v.Copies v.detach := by
  cases v with
  | primitive p box => exact ⟨0, rfl⟩
  | _ => rfl

namespace Store

variable {s s' : Store} {scope owner : ScopeId} {name : String} {id : VariableId} {v : Value}

/-- What a scope itself has under a name: the entity, and its cell if it is a variable. -/
def binding? (s : Store) (scope : ScopeId) (name : String) : Option (Entity × Option Variable) :=
  ((s.entries scope).get? name).map fun e =>
    (e, match e with
      | .var id => s.variableAt? id
      | _ => none)

theorem binding?_of_var (h : (s.entries scope).get? name = some (.var id)) :
    s.binding? scope name = some (.var id, s.variableAt? id) := by
  rw [binding?, h]
  rfl

/-- The variable that a scope has under a name holds a value, and nothing else is different: no
other name of this scope or of another one, and no cell of another kind. -/
structure Assigned (s : Store) (owner : ScopeId) (name : String) (id : VariableId) (v : Value)
    (s' : Store) : Prop where
  change : s' = s.setVariable id v
  bound : ∃ x, s.binding? owner name = some (.var id, some x) ∧
    s'.binding? owner name = some (.var id, some { x with value := v })
  others : ∀ scope other, (scope, other) ≠ (owner, name) →
    s'.binding? scope other = s.binding? scope other
  scopes : s'.scopes = s.scopes
  objects : s'.objects = s.objects
  arrays : s'.arrays = s.arrays

/-- Where no variable has two names, setting one changes what one name stands for. -/
theorem Unshared.assigned (h : s.Unshared) (hid : (s.entries owner).get? name = some (.var id))
    (v : Value) : s.Assigned owner name id v (s.setVariable id v) where
  change := rfl
  bound := by
    obtain ⟨x, hx⟩ : ∃ x, s.variableAt? id = some x :=
      ⟨_, Array.getElem?_eq_getElem (h.there (Table.mem_of_get? hid))⟩
    have hid' : ((s.setVariable id v).entries owner).get? name = some (.var id) := hid
    refine ⟨x, ?_, ?_⟩
    · rw [binding?_of_var hid, hx]
    · rw [binding?_of_var hid', variableAt?_setVariable, if_pos rfl, hx]
      rfl
  others scope other hne := by
    have hsame : (s.setVariable id v).entries scope = s.entries scope := rfl
    cases he : (s.entries scope).get? other with
    | none => rw [binding?, binding?, hsame, he]; rfl
    | some e =>
      cases e with
      | fn _ => rw [binding?, binding?, hsame, he]; rfl
      | mod _ => rw [binding?, binding?, hsame, he]; rfl
      | var id' =>
        have hne' : id ≠ id' := by
          rintro rfl
          obtain ⟨rfl, rfl⟩ := h.once (Table.mem_of_get? he) (Table.mem_of_get? hid)
          exact hne rfl
        rw [binding?_of_var he, binding?_of_var (hsame ▸ he), variableAt?_setVariable_of_ne s hne']
  scopes := rfl
  objects := rfl
  arrays := rfl

/-- A name gives a copy of what its variable holds. -/
theorem nameValue_of_find? (hfind : s.find? scope name = some owner)
    (hid : (s.entries owner).get? name = some (.var id)) :
    s.nameValue scope name = .ok (s.valueOf id).detach := by
  rw [nameValue, resolve?_eq_some_iff.mpr ⟨owner, hfind, hid⟩]
  rfl

end Store

/-! ## Properties -/

namespace Store

variable {s s' : Store} {o : ObjectId} {k : String} {v : Value}

/-- The property that an object gets when a member is assigned to: with the flags that it has, or
with the usual ones if it is new. -/
def written (s : Store) (o : ObjectId) (k : String) (v : Value) : Property :=
  match (s.properties o).get? k with
  | some p => { p with value := v }
  | none => { value := v }

theorem written_eq_flagsOf (s : Store) (o : ObjectId) (k : String) (v : Value) :
    s.written o k v = { s.flagsOf o k with value := v } := by
  rw [written, flagsOf]
  cases (s.properties o).get? k <;> rfl

/-- The flags are settled before the value is evaluated, but it does not change them. -/
theorem written_eq_of_changes {π : Permit} (h : Changes π s s') (ho : s.Has (.object o))
    (k : String) (v : Value) : s'.written o k v = s.written o k v := by
  rw [written_eq_flagsOf, written_eq_flagsOf, h.flagsOf_eq ho]

/-- An object has a property of its own with a value, and nothing else is different: no other
property of this object or of another one, nothing that objects fall back on or do, and no cell of
another kind. -/
structure Written (s : Store) (o : ObjectId) (k : String) (v : Value) (s' : Store) : Prop where
  change : s' = s.setProperty o k (s.written o k v)
  own : (s'.properties o).get? k = some (s.written o k v)
  value : (s.written o k v).value = v
  others : ∀ other key, (other, key) ≠ (o, k) →
    (s'.properties other).get? key = (s.properties other).get? key
  prototypes : ∀ other, s'.prototype? other = s.prototype? other
  functions : ∀ other, s'.function? other = s.function? other
  scopes : s'.scopes = s.scopes
  vars : s'.vars = s.vars
  arrays : s'.arrays = s.arrays

theorem written_setProperty (ho : s.Has (.object o)) (k : String) (v : Value) :
    s.Written o k v (s.setProperty o k (s.written o k v)) where
  change := rfl
  own := by
    rw [properties_setProperty s (Array.getElem?_eq_getElem ho), Table.get?_put, if_pos rfl]
  value := by rw [written_eq_flagsOf]
  others other key hne := by
    by_cases he : o = other
    · subst he
      have hk : k ≠ key := by
        rintro rfl
        exact hne rfl
      rw [properties_setProperty s (Array.getElem?_eq_getElem ho), Table.get?_put, if_neg hk]
    · rw [properties_setProperty_of_ne s he]
  prototypes other := prototype?_setProperty s o other k _
  functions other := by
    rw [function?, function?, objectAt?_setProperty]
    split
    · cases s.objectAt? other <;> rfl
    · rfl
  scopes := rfl
  vars := rfl
  arrays := rfl

/-- Every chain begins with the object itself. -/
theorem prototypeChain_eq_cons (ho : s.Has (.object o)) :
    ∃ above, s.prototypeChain o = o :: above := by
  change o.index < s.objects.size at ho
  obtain ⟨bound, hbound⟩ : ∃ bound, s.objects.size = bound + 1 := ⟨s.objects.size - 1, by omega⟩
  rw [prototypeChain, hbound, follow]
  exact ⟨_, rfl⟩

/-- What an object has itself is what reading its member gives. -/
theorem Written.readMember_eq (h : s.Written o k v s') (ho : s'.Has (.object o)) (limit : Nat) :
    s'.readMember limit (.object o) k = .ok v := by
  obtain ⟨above, hchain⟩ := prototypeChain_eq_cons ho
  show Except.ok (s'.getProperty o k) = .ok v
  rw [getProperty, hchain, List.findSome?_cons, h.own]
  exact congrArg Except.ok h.value

end Store

namespace Eval

variable {m m₂ : Machine} {scope : ScopeId} {name : String} {id : VariableId} {v : Value}
  {eval : Evaluator} {e : Node}

/-- The name of a variable is written after the value, if the variable is not a constant. -/
theorem assignName_of_var (hname : m.store.resolve? scope name = some (.var id))
    (he : eval e scope m = .ok v m₂) :
    assignName eval name e scope m =
      match m₂.store.checkMutable id with
      | .ok () => .ok v { m₂ with store := m₂.store.setVariable id v }
      | .error fault => .error fault m₂ := by
  have hresolve : resolve scope name m = .ok (.var id) m := Does.query_ok (by rw [hname])
  rw [assignName, bind_ok hresolve]
  dsimp only
  rw [bind_ok he]
  cases hcheck : m₂.store.checkMutable id with
  | ok _ =>
    have hassign : assign id v m₂ = .ok () { m₂ with store := m₂.store.setVariable id v } :=
      bind_ok (Does.query_ok hcheck)
    rw [bind_ok hassign]
    rfl
  | error fault =>
    have hassign : assign id v m₂ = .error fault m₂ := bind_error (Does.query_error hcheck)
    rw [bind_error hassign]

/-- What is not the name of a variable is refused before the value is evaluated. -/
theorem assignName_of_not_var (hname : ∀ id, m.store.resolve? scope name ≠ some (.var id)) :
    ∃ fault, assignName eval name e scope m = .error fault m := by
  cases hr : m.store.resolve? scope name with
  | none =>
    have hresolve : resolve scope name m = .error (.unresolved name) m :=
      Does.query_error (by rw [hr])
    exact ⟨_, bind_error hresolve⟩
  | some entity =>
    have hresolve : resolve scope name m = .ok entity m := Does.query_ok (by rw [hr])
    cases entity with
    | var id => exact absurd hr (hname id)
    | fn _ => exact ⟨_, bind_ok hresolve⟩
    | mod _ => exact ⟨_, bind_ok hresolve⟩

variable {m₁ : Machine} {t : Node} {o : ObjectId} {k : String} {limit : Nat}

/-- A property of an object is written after the value, with the flags that it had before, unless it
is read-only. -/
theorem assignMember_of_object (ht : eval t scope m = .ok (.object o) m₁)
    (he : eval e scope m₁ = .ok v m₂) :
    assignMember eval limit t k e scope m =
      if ((m₁.store.properties o).get? k).any (!·.isWriteable) then .error (.readOnly k) m₁
      else .ok v { m₂ with store := m₂.store.setProperty o k (m₁.store.written o k v) } := by
  have hask : ask (·.properties o) m₁ = .ok (m₁.store.properties o) m₁ := rfl
  rw [assignMember, bind_ok ht]
  dsimp only
  rw [bind_ok hask]
  split
  · exact bind_error rfl
  · rw [bind_ok he]
    rfl

/-- What is no object is refused before the value is evaluated. -/
theorem assignMember_of_not_object {target : Value} (ht : eval t scope m = .ok target m₁)
    (hnot : ∀ o, target ≠ .object o) :
    ∃ fault, assignMember eval limit t k e scope m = .error fault m₁ := by
  have hrefused : ∀ fault : String → Fault, ∃ f,
      (do throw (fault (← query (·.format limit target))) : Eval Value) m₁ = .error f m₁ := by
    intro fault
    cases hf : m₁.store.format limit target with
    | ok text => exact ⟨_, bind_ok (Does.query_ok hf)⟩
    | error f => exact ⟨_, bind_error (Does.query_error hf)⟩
  rw [assignMember, bind_ok ht]
  cases target with
  | object o => exact absurd rfl (hnot o)
  | _ => exact hrefused _

/-! ## Both -/

/-- A name was assigned to. From `m` the evaluation of the value had led to `m₂`. -/
structure NameAssigned (m m₂ : Machine) (scope : ScopeId) (name : String) (v : Value)
    (m' : Machine) : Prop where
  /-- What changed is the variable that the nearest scope had under the name before. -/
  target : ∃ owner id, m.store.find? scope name = some owner ∧
    (m.store.entries owner).get? name = some (.var id) ∧
    m₂.store.Assigned owner name id v m'.store
  rest : m' = { m₂ with store := m'.store }
  /-- The name gives a copy of the value, and asking for it changes nothing. -/
  read : ∀ depth line, ∃ w, value (depth + 1) (.identifier line name) scope m' = .ok w m' ∧
    v.Copies w

/-- A member was assigned to. From `m₁`, where the object was known, the evaluation of the value had
led to `m₂`. -/
structure MemberAssigned (m₁ m₂ : Machine) (o : ObjectId) (k : String) (v : Value) (m' : Machine) :
    Prop where
  target : m₂.store.Written o k v m'.store
  /-- It does not matter when the flags are looked at. -/
  flags : m₂.store.written o k v = m₁.store.written o k v
  rest : m' = { m₂ with store := m'.store }
  read : ∀ limit, m'.store.readMember limit (.object o) k = .ok v

theorem nameAssigned_setVariable {owner : ScopeId} (hc : m.store.Closed)
    (hu : m₂.store.Unshared) (hscope : m.store.Has (.scope scope))
    (hsame : m.store.SameScopes m₂.store) (hfind : m.store.find? scope name = some owner)
    (hid : (m.store.entries owner).get? name = some (.var id)) :
    NameAssigned m m₂ scope name v { m₂ with store := m₂.store.setVariable id v } := by
  have hid₂ : (m₂.store.entries owner).get? name = some (.var id) := by
    rw [(hsame.2 owner (Store.has_scope_of_get? hid)).2, hid]
  have hassigned := hu.assigned hid₂ v
  refine ⟨⟨owner, id, hfind, hid, hassigned⟩, rfl, ?_⟩
  intro depth line
  -- the change of a variable leaves all scopes, so the name is found where it was
  have hfind₂ : (m₂.store.setVariable id v).find? scope name = some owner :=
    Store.find?_of_same hc hscope hsame hfind
  have hread := Store.nameValue_of_find? hfind₂ hid₂
  obtain ⟨x, hx⟩ : ∃ x, m₂.store.variableAt? id = some x :=
    ⟨_, Array.getElem?_eq_getElem (hu.there (Table.mem_of_get? hid₂))⟩
  rw [Store.valueOf_setVariable _ hx] at hread
  rw [value_identifier]
  exact ⟨_, Does.query_ok hread, v.copies_detach⟩

theorem memberAssigned_setProperty {π : Permit} (ho : m₁.store.Has (.object o))
    (hchanges : Changes π m₁.store m₂.store) :
    MemberAssigned m₁ m₂ o k v
      { m₂ with store := m₂.store.setProperty o k (m₁.store.written o k v) } := by
  have hflags := Store.written_eq_of_changes hchanges ho k v
  rw [← hflags]
  have hwritten := Store.written_setProperty (hchanges.has ho) k v
  refine ⟨hwritten, hflags, rfl, ?_⟩
  intro limit
  refine hwritten.readMember_eq ?_ limit
  show o.index < (m₂.store.objects.modify _ _).size
  rw [Array.size_modify]
  exact hchanges.has ho

/-- Whatever tree is evaluated, its value is there afterwards. -/
theorem changes_of_value {depth : Nat} {node : Node} (hc : m.store.Closed)
    (hscope : m.store.Has (.scope scope)) (h : value depth node scope m = .ok v m₁) :
    Changes (.inScope m.store scope True) m.store m₁.store ∧ m₁.store.Holds v := by
  let π := Permit.inScope m.store scope True
  have opens : π.Opens scope := fun _ => Or.inr ⟨rfl, trivial⟩
  have lax : ∀ {P : Prop}, π.strict → P := False.elim
  have hdoes := (evaluatorsDo π depth).value node scope m hscope ⟨lax, lax, Or.inl opens⟩
  exact (hdoes hc.sound_inScope).of_ok h

/-- An assignment of an expression of the grammar to a name, whose evaluation ends well. -/
theorem assignName_laws {depth : Nat} (hc : m.store.Closed) (hu : m.store.Unshared)
    (hscope : m.store.Has (.scope scope)) (hfits : e.Fits True .expression)
    (he : value depth e scope m = .ok v m₂) (name : String) :
    match assignName (value depth) name e scope m with
    | .ok w m' => w = v ∧ NameAssigned m m₂ scope name v m'
    | .error _ m' => m' = m ∧ (∀ id, m.store.resolve? scope name ≠ some (.var id)) ∨ m' = m₂ := by
  let π := Permit.inScope m.store scope False
  have hdoes := (evaluators_do_expression π depth (m := m) id hscope hfits).1 hc.sound_inScope
  have hchanges : Changes π m.store m₂.store := (hdoes.of_ok he).1
  have hu₂ : m₂.store.Unshared :=
    (((evaluatorsUphold Store.upkeep_unshared depth).value e scope).of_ok hu he).1
  by_cases hvar : ∃ id, m.store.resolve? scope name = some (.var id)
  · obtain ⟨id, hid⟩ := hvar
    obtain ⟨owner, hfind, hentry⟩ := Store.resolve?_eq_some_iff.mp hid
    rw [assignName_of_var hid he]
    cases m₂.store.checkMutable id with
    | ok _ =>
      exact ⟨rfl, nameAssigned_setVariable hc hu₂ hscope hchanges.sameScopes hfind hentry⟩
    | error fault => exact Or.inr rfl
  · rw [not_exists] at hvar
    obtain ⟨fault, hrefused⟩ : ∃ fault, assignName (value depth) name e scope m = .error fault m :=
      assignName_of_not_var hvar
    rw [hrefused]
    exact Or.inl ⟨rfl, hvar⟩

/-- An assignment to a member of what a tree gives, of a value whose evaluation ends well. -/
theorem assignMember_laws {depth : Nat} {target : Value} (hc : m.store.Closed)
    (hscope : m.store.Has (.scope scope)) (ht : value depth t scope m = .ok target m₁)
    (he : value depth e scope m₁ = .ok v m₂) (limit : Nat) (k : String) :
    match assignMember (value depth) limit t k e scope m with
    | .ok w m' => w = v ∧ ∃ o, target = .object o ∧ MemberAssigned m₁ m₂ o k v m'
    | .error _ m' => m' = m₁ ∧ ∀ o, target = .object o →
        ∃ p, (m₁.store.properties o).get? k = some p ∧ p.isWriteable = false := by
  obtain ⟨hchanges₁, hheld⟩ := changes_of_value hc hscope ht
  have hc₁ := (hchanges₁.sound hc.sound_inScope).closed
  obtain ⟨hchanges₂, -⟩ := changes_of_value hc₁ (hchanges₁.has hscope) he
  cases target with
  | object o =>
    rw [assignMember_of_object ht he]
    by_cases hreadOnly : ((m₁.store.properties o).get? k).any (!·.isWriteable) = true
    · rw [if_pos hreadOnly]
      refine ⟨rfl, ?_⟩
      rintro _ ⟨⟩
      obtain ⟨p, hp, hwriteable⟩ := (Option.any_eq_true _ _).mp hreadOnly
      exact ⟨p, hp, by simpa using hwriteable⟩
    · rw [if_neg hreadOnly]
      have ho : m₁.store.Has (.object o) := (Store.holds_object o).mp hheld
      exact ⟨rfl, o, rfl, memberAssigned_setProperty ho hchanges₂⟩
  | _ =>
    obtain ⟨fault, hrefused⟩ := assignMember_of_not_object ht (by simp)
    rw [hrefused]
    exact ⟨rfl, by simp⟩

end Eval

namespace Session

open Eval

/-- A new session has no variables. -/
theorem unshared_firstStore : firstStore.Unshared := by
  have hnone : ∀ scope name id, (name, Entity.var id) ∉ firstStore.entries scope := by
    rintro ⟨i⟩ name id
    match i with
    | 0 => simp [Store.entries, Store.scopeAt?, firstStore]
    | 1 => simp [Store.entries, Store.scopeAt?, firstStore, standardEntries]
    | 2 => simp [Store.entries, Store.scopeAt?, firstStore]
    | i + 3 => simp [Store.entries, Store.scopeAt?, firstStore]
  exact ⟨fun h => absurd h (hnone _ _ _), fun h => absurd h (hnone _ _ _)⟩

/-- Every sequence of steps on a new session leads to a store whose references lead somewhere and
whose names share no variables, and so does whatever is evaluated from there on. In every machine
with such a store, and in every scope of it, the following holds of an expression that was read from
a source text and gives a value:

* assigning it to a name succeeds with this value as `NameAssigned` says, or fails. It fails either
  before the expression is evaluated, because the name is not that of a variable, and then nothing
  has happened; or after, and then the machine is as the expression left it;
* assigning it to a member of what any tree gives succeeds with this value as `MemberAssigned` says,
  or fails before the expression is evaluated, because there is no object or the property is
  read-only. -/
theorem assignment_laws (tracing : Bool) (history : List (Nat × Step)) :
    let s := (play tracing history).machine.store
    s.Closed ∧ s.Unshared ∧
    ∀ m : Machine, m.store.Closed → m.store.Unshared →
      ∀ scope, m.store.Has (.scope scope) → ∀ depth,
        (∀ node, ∀ m' ∈ finals depth node scope m, m'.store.Closed ∧ m'.store.Unshared) ∧
        ∀ source limit stream e rest, Stream.Before (Stream.ofSource source) stream →
          Grammar.expression limit stream = .ok e rest →
          (∀ name v m₂, value depth e scope m = .ok v m₂ → ∀ line line',
            match value (depth + 1) (.reassignment line (.identifier line' name) e) scope m with
            | .ok w m' => w = v ∧ NameAssigned m m₂ scope name v m'
            | .error _ m' =>
              m' = m ∧ (∀ id, m.store.resolve? scope name ≠ some (.var id)) ∨ m' = m₂) ∧
          ∀ t k target m₁ v m₂, value depth t scope m = .ok target m₁ →
            value depth e scope m₁ = .ok v m₂ → ∀ line line',
            match value (depth + 1) (.reassignment line (.objectAccess line' t k) e) scope m with
            | .ok w m' => w = v ∧ ∃ o, target = .object o ∧ MemberAssigned m₁ m₂ o k v m'
            | .error _ m' => m' = m₁ ∧ ∀ o, target = .object o →
                ∃ p, (m₁.store.properties o).get? k = some p ∧ p.isWriteable = false := by
  have hsound := (play_spec tracing history).1
  refine ⟨hsound.store.closed, play_upholds Store.upkeep_unshared unshared_firstStore _ _, ?_⟩
  intro m hc hu scope hscope depth
  refine ⟨?_, ?_⟩
  · intro node m' hm'
    exact ⟨((changes_of_mem_finals hc hscope hm').sound hc.sound_inScope).closed,
      upheld_of_mem_finals Store.upkeep_unshared hu hm'⟩
  intro source limit stream e rest hbefore hread
  have hfits : e.Fits True .expression :=
    (((Grammar.readersFit limit).expression stream
      ((Stream.sound_ofSource source).before hbefore)).of_ok hread).2
  refine ⟨?_, ?_⟩
  · intro name v m₂ he line line'
    exact assignName_laws hc hu hscope hfits he name
  · intro t k target m₁ v m₂ ht he line line'
    exact assignMember_laws hc hscope ht he depth k

/-- The value comes of a function that assigns to the same variable and to the same property: what
it assigns is there when it returns, and what is read after the assignment is the value. -/
theorem assignment_laws_of_call :
    let m := (play false [(12, .load
      "var x = 1 const o = \x7bk: 2\x7d fn f() \x7b x = 5; o.k = 6; return 7; \x7d")]).machine
    let e : Node := .call 1 (.identifier 1 "f") []
    ∃ m₂ m₃ m₄, value 9 e mainScope m = .ok (.int 7) m₂ ∧
      m₂.store.nameValue mainScope "x" = .ok (.int 5) ∧
      m₂.store.getProperty ⟨8⟩ "k" = .int 6 ∧
      value 10 (.reassignment 1 (.identifier 1 "x") e) mainScope m = .ok (.int 7) m₃ ∧
      NameAssigned m m₂ mainScope "x" (.int 7) m₃ ∧
      value 10 (.reassignment 1 (.objectAccess 1 (.identifier 1 "o") "k") e) mainScope m =
        .ok (.int 7) m₄ ∧
      MemberAssigned m m₂ ⟨8⟩ "k" (.int 7) m₄ := by
  intro m e
  have hscope : m.store.Has (.scope mainScope) :=
    serves_permit.toHosts.has_mainScope (play_spec false _).1.store
  have hread : EStateM.run' (Grammar.expression 9) (Stream.ofSource "f()") = some e := by
    dsimp only [e]
    cbv
  have hends : (EStateM.run' (do
      let v ← value 9 e mainScope
      let s := (← get).store
      return (v, s.nameValue mainScope "x", s.getProperty ⟨8⟩ "k")) m,
      EStateM.run' (value 10 (.reassignment 1 (.identifier 1 "x") e) mainScope) m,
      EStateM.run' (value 10 (.reassignment 1 (.objectAccess 1 (.identifier 1 "o") "k") e)
        mainScope) m, m.store.nameValue mainScope "o") =
      (some (.int 7, .ok (.int 5), .int 6), some (.int 7), some (.int 7), .ok (.object ⟨8⟩)) := by
    dsimp only [m, e]
    cbv
  simp only [Prod.mk.injEq] at hends
  obtain ⟨hvalue, hname, hmember, ho⟩ := hends
  obtain ⟨rest, hexpression⟩ := exists_of_run' hread
  obtain ⟨_, hbefore⟩ := exists_of_run' hvalue
  obtain ⟨v, m₂, he, hlast⟩ := bind_eq_ok hbefore
  injection hlast with hpair
  simp only [Prod.mk.injEq] at hpair
  obtain ⟨rfl, hx, hk⟩ := hpair
  obtain ⟨m₃, hm₃⟩ := exists_of_run' hname
  obtain ⟨m₄, hm₄⟩ := exists_of_run' hmember
  have ht : value 9 (.identifier 1 "o") mainScope m = .ok (.object ⟨8⟩) m := by
    rw [value_identifier]
    exact Does.query_ok ho
  obtain ⟨hc, hu, hlaws⟩ := assignment_laws false [(12, .load
    "var x = 1 const o = \x7bk: 2\x7d fn f() \x7b x = 5; o.k = 6; return 7; \x7d")]
  obtain ⟨hnamed, hmembered⟩ :=
    (hlaws m hc hu mainScope hscope 9).2 "f()" 9 _ e rest (refl _) hexpression
  have hx' := hnamed "x" _ m₂ he 1 1
  have hk' := hmembered (.identifier 1 "o") "k" _ m _ m₂ ht he 1 1
  rw [hm₃] at hx'
  rw [hm₄] at hk'
  obtain ⟨-, o, ho', hmember'⟩ := hk'
  cases ho'
  exact ⟨m₂, m₃, m₄, he, hx, hk, hm₃, hx'.2, hm₄, hmember'⟩

end Session

end Scriptlet
