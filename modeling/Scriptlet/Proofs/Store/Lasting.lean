import Scriptlet.Proofs.Store.Frame

/-!
# What lasts

Evaluation may assign to variables and write to objects and arrays, but not everything in a store
can change. A constant keeps its value, a function its code, and a name what it stands for, for as
long as the scope has the name. Arrays and the key lists of objects only grow, and a property keeps
its flags, and its value too if it may not be written.

* `Store.Keeps` : constants, functions and names are the same, but for names that may be dropped.
* `Store.Grows` : arrays and objects have what they had, and perhaps more behind it.
* `Changes.keeps_names`, `Changes.grows` : so it is after any number of steps of evaluation.
-/

namespace Scriptlet

variable {π : Permit} {s s' s'' : Store}

/-! ## Tables -/

namespace Table

variable {β : Type} {t : Table β} {name : String} {entry : β}

/-- A name that is there is not affected by what is written behind it. -/
theorem get?_append (h : t.get? name = some entry) (u : Table β) :
    get? (t ++ u) name = some entry := by
  induction t with
  | nil => cases h
  | cons pair rest ih =>
    obtain ⟨key, old⟩ := pair
    rw [List.cons_append, get?]
    rw [get?] at h
    split at h
    · next hk => rwa [if_pos hk]
    · next hk =>
      rw [if_neg hk]
      exact ih h

/-- A name whose entry is kept is still there when others are dropped. -/
theorem get?_filter {keep : String × β → Bool} (h : t.get? name = some entry)
    (hkeep : keep (name, entry) = true) : get? (t.filter keep) name = some entry := by
  induction t with
  | nil => cases h
  | cons pair rest ih =>
    obtain ⟨key, old⟩ := pair
    rw [get?] at h
    split at h
    · next hk =>
      obtain rfl : old = entry := Option.some.inj h
      rw [List.filter_cons_of_pos (by rw [hk]; exact hkeep), get?, if_pos hk]
    · next hk =>
      rw [List.filter_cons]
      split
      · rw [get?, if_neg hk]
        exact ih h
      · exact ih h

end Table

/-! ## Constants, functions and names -/

/-- Constants and functions are the same, and so is what names stand for, unless they may have been
dropped. -/
structure Store.Keeps (drops : ScopeId → String → Prop) (s s' : Store) : Prop where
  constants : ∀ id x, s.variableAt? id = some x → x.isConst = true → s'.variableAt? id = some x
  functions : ∀ id f, s.function? id = some f → s'.function? id = some f
  names : ∀ id name e, (s.entries id).get? name = some e → ¬ drops id name →
    (s'.entries id).get? name = some e

/-- No name is dropped. -/
abbrev Store.noDrops : ScopeId → String → Prop := fun _ _ => False

namespace Store

variable {drops drops' : ScopeId → String → Prop}

theorem has_object_of_function? {id : ObjectId} {f : Function} (h : s.function? id = some f) :
    s.Has (.object id) := by
  refine Has.object_of_function ?_
  show (s.function? id).isSome = true
  rw [h]
  rfl

/-- A scope that is not there has no names. -/
theorem entries_of_not_has {id : ScopeId} (h : ¬ s.Has (.scope id)) : s.entries id = [] := by
  have hnone : s.scopeAt? id = none := Array.getElem?_eq_none (Nat.le_of_not_lt h)
  rw [entries, hnone]
  rfl

theorem has_scope_of_get? {id : ScopeId} {name : String} {e : Entity}
    (h : (s.entries id).get? name = some e) : s.Has (.scope id) := by
  refine Decidable.byContradiction fun hno => ?_
  rw [entries_of_not_has hno] at h
  cases h

namespace Keeps

theorem refl (s : Store) : s.Keeps drops s :=
  ⟨fun _ _ h _ => h, fun _ _ h => h, fun _ _ _ h _ => h⟩

theorem trans (h : s.Keeps drops s') (h' : s'.Keeps drops s'') : s.Keeps drops s'' where
  constants id x hx hc := h'.constants id x (h.constants id x hx hc) hc
  functions id f hf := h'.functions id f (h.functions id f hf)
  names id name e he hd := h'.names id name e (h.names id name e he hd) hd

theorem mono (h : s.Keeps drops s') (hd : ∀ id name, drops id name → drops' id name) :
    s.Keeps drops' s' :=
  ⟨h.constants, h.functions,
    fun id name e he hn => h.names id name e he fun hc => hn (hd id name hc)⟩

/-- A scope that was not there may be emptied. -/
theorem clean (h : s.Keeps drops s') {scope : ScopeId} (hnew : ¬ s.Has (.scope scope)) :
    s.Keeps drops (s'.clean scope) where
  constants := h.constants
  functions := h.functions
  names id name e he hd := by
    have hne : scope ≠ id := by
      rintro rfl
      exact hnew (has_scope_of_get? he)
    rw [Store.clean, entries_modifyEntries_of_ne s' hne]
    exact h.names id name e he hd

end Keeps

end Store

/-- Only a variable that may be assigned to changes. -/
theorem Change.variableAt?_eq (h : Change π s s') {id : VariableId} {x : Variable}
    (hx : s.variableAt? id = some x) (hc : x.isConst = true) : s'.variableAt? id = some x := by
  cases h with
  | addVariable y =>
    have hlt : id.index < s.vars.size := (Array.getElem?_eq_some_iff.mp hx).1
    rw [Store.variableAt?_addVariable, if_neg (by omega), hx]
  | setVariable other v there mutable =>
    have hne : other ≠ id := by
      rintro rfl
      rw [Store.checkMutable, hx] at mutable
      dsimp only at mutable
      rw [if_pos hc] at mutable
      cases mutable
    rw [Store.variableAt?_setVariable_of_ne s hne, hx]
  | _ => exact hx

/-- What a name stands for is settled when it is declared. -/
theorem Change.entry_eq (h : Change π s s') {id : ScopeId} {name : String} {e : Entity}
    (he : (s.entries id).get? name = some e) (hd : ¬ π.drops id name) :
    (s'.entries id).get? name = some e := by
  have hid := Store.has_scope_of_get? he
  obtain ⟨scope, hscope⟩ : ∃ scope, s.scopeAt? id = some scope :=
    ⟨_, Array.getElem?_eq_getElem hid⟩
  cases h with
  | addScope owner parent =>
    change id.index < s.scopes.size at hid
    rw [Store.entries, Store.scopeAt?_addScope, if_neg (by omega)]
    exact he
  | bind other key e' =>
    by_cases hs : other = id
    · subst hs
      rw [Store.entries_bind s hscope]
      exact Table.get?_append he _
    · rwa [Store.bind, Store.entries_modifyEntries_of_ne s hs]
  | drop other keep allowed =>
    by_cases hs : other = id
    · subst hs
      have hkeep : keep (name, e) = true := by
        cases hk : keep (name, e) with
        | true => rfl
        | false => exact absurd (allowed (name, e) (Table.mem_of_get? he) hk) hd
      have hentries : (s.modifyEntries other (·.filter keep)).entries other =
          (s.entries other).filter keep := by
        simp [Store.entries, Store.scopeAt?_modifyEntries, hscope]
      rw [hentries]
      exact Table.get?_filter he hkeep
    · rwa [Store.entries_modifyEntries_of_ne s hs]
  | _ => exact he

theorem Change.keeps (h : Change π s s') : s.Keeps π.drops s' where
  constants _ _ hx hc := h.variableAt?_eq hx hc
  functions id f hf := by rw [h.function?_eq (Store.has_object_of_function? hf), hf]
  names _ _ _ he hd := h.entry_eq he hd

/-- After any number of steps constants, functions and names are as they were. -/
theorem Changes.keeps_names (h : Changes π s s') : s.Keeps π.drops s' := by
  induction h with
  | refl => exact .refl s
  | tail _ hc ih => exact ih.trans hc.keeps

/-! ## Arrays and objects -/

/-- Arrays and objects have what they had, in the same order, and perhaps more behind it. An element
stays where it is; a property keeps its flags, and its value if it may not be written. -/
structure Store.Grows (s s' : Store) : Prop where
  elements : ∀ id, s.Has (.array id) → (s.elements id).toList <+: (s'.elements id).toList
  keys : ∀ id, s.Has (.object id) → (s.properties id).keys <+: (s'.properties id).keys
  properties : ∀ id name p, (s.properties id).get? name = some p →
    ∃ p', (s'.properties id).get? name = some p' ∧ p'.flags = p.flags ∧
      (p.isWriteable = false → p' = p)

namespace Store

theorem properties_of_not_has {id : ObjectId} (h : ¬ s.Has (.object id)) :
    s.properties id = [] := by
  have hnone : s.objectAt? id = none := Array.getElem?_eq_none (Nat.le_of_not_lt h)
  rw [properties, hnone]
  rfl

theorem has_object_of_get? {id : ObjectId} {name : String} {p : Property}
    (h : (s.properties id).get? name = some p) : s.Has (.object id) := by
  refine Decidable.byContradiction fun hno => ?_
  rw [properties_of_not_has hno] at h
  cases h

theorem properties_addObject (s : Store) (o : Object) (id : ObjectId) :
    (s.addObject o).2.properties id =
      if id.index = s.objects.size then o.properties else s.properties id := by
  simp only [properties, objectAt?_addObject]
  split <;> rfl

theorem properties_setPrototype (s : Store) (id other : ObjectId) (prototype : Option ObjectId) :
    (s.setPrototype id prototype).properties other = s.properties other := by
  rw [properties, objectAt?_setPrototype, properties]
  split
  · cases s.objectAt? other <;> rfl
  · rfl

theorem properties_setProperty_of_ne (s : Store) {id other : ObjectId} (h : id ≠ other)
    (name : String) (p : Property) :
    (s.setProperty id name p).properties other = s.properties other := by
  rw [properties, objectAt?_setProperty, if_neg h, properties]

namespace Grows

theorem refl (s : Store) : s.Grows s where
  elements _ _ := List.prefix_refl _
  keys _ _ := List.prefix_refl _
  properties _ _ p hp := ⟨p, hp, rfl, fun _ => rfl⟩

/-- Nothing grew where arrays and properties are the same. -/
theorem of_eq (ha : ∀ id, s.Has (.array id) → s'.elements id = s.elements id)
    (ho : ∀ id, s.Has (.object id) → s'.properties id = s.properties id) : s.Grows s' where
  elements id hid := by simp only [ha id hid, List.prefix_refl]
  keys id hid := by simp only [ho id hid, List.prefix_refl]
  properties id _ p hp := by
    rw [ho id (has_object_of_get? hp)]
    exact ⟨p, hp, rfl, fun _ => rfl⟩

/-- A new element stands behind the others. -/
theorem pushElement (s : Store) (id : ArrayId) (v : Value) : s.Grows (s.pushElement id v) where
  elements other hother := by
    obtain ⟨items, hitems⟩ : ∃ items, s.arrays[other.index]? = some items :=
      ⟨_, Array.getElem?_eq_getElem hother⟩
    simp only [Store.elements, Store.pushElement, Array.getElem?_modify, hitems]
    split
    · simp only [Option.map_some, Option.getD_some, Array.toList_push]
      exact List.prefix_append _ _
    · exact List.prefix_refl _
  keys _ _ := List.prefix_refl _
  properties _ _ p hp := ⟨p, hp, rfl, fun _ => rfl⟩

/-- A property that is written has the flags that it had, and was not one that may not be. -/
theorem setProperty {id : ObjectId} {name : String} {p : Property} (there : s.Has (.object id))
    (flags : p.flags = s.flagsOf id name) (writeable : p.isWriteable = true) :
    s.Grows (s.setProperty id name p) where
  elements _ _ := List.prefix_refl _
  keys other _ := by
    by_cases hne : id = other
    · subst hne
      rw [properties_setProperty s (Array.getElem?_eq_getElem there), Table.keys_put]
      split
      · exact List.prefix_refl _
      · exact List.prefix_append _ _
    · simp only [properties_setProperty_of_ne s hne, List.prefix_refl]
  properties other key q hq := by
    by_cases hne : id = other
    · subst hne
      rw [properties_setProperty s (Array.getElem?_eq_getElem there), Table.get?_put]
      split
      · next hk =>
        subst hk
        have hflags : p.flags = q.flags := by
          rw [flags, flagsOf, hq]
          rfl
        have hw : p.isWriteable = q.isWriteable := congrArg (·.isWriteable) hflags
        refine ⟨p, rfl, hflags, ?_⟩
        intro hfixed
        rw [← hw, writeable] at hfixed
        cases hfixed
      · exact ⟨q, hq, rfl, fun _ => rfl⟩
    · rw [properties_setProperty_of_ne s hne]
      exact ⟨q, hq, rfl, fun _ => rfl⟩

end Grows

end Store

theorem Change.grows (h : Change π s s') : s.Grows s' := by
  cases h with
  | addObject o =>
    refine .of_eq (fun _ _ => rfl) ?_
    intro id hid
    change id.index < s.objects.size at hid
    rw [Store.properties_addObject, if_neg (by omega)]
  | addArray items =>
    refine .of_eq ?_ (fun _ _ => rfl)
    intro id hid
    change id.index < s.arrays.size at hid
    rw [Store.elements_addArray, if_neg (by omega)]
  | setProperty id name p there flags writeable => exact .setProperty there flags writeable
  | setPrototype id prototype =>
    exact .of_eq (fun _ _ => rfl) fun other _ => Store.properties_setPrototype s id other prototype
  | pushElement id v => exact .pushElement s id v
  | _ => exact .of_eq (fun _ _ => rfl) fun _ _ => rfl

/-- After any number of steps arrays and objects have what they had. -/
theorem Changes.grows (h : Changes π s s') : s.Grows s' := by
  induction h with
  | refl => exact .refl s
  | @tail t t' hs hc ih =>
    have hstep := hc.grows
    refine ⟨?_, ?_, ?_⟩
    · intro id hid
      exact (ih.elements id hid).trans (hstep.elements id (Changes.has hs hid))
    · intro id hid
      exact (ih.keys id hid).trans (hstep.keys id (Changes.has hs hid))
    · intro id name p hp
      obtain ⟨q, hq, hflags, hfixed⟩ := ih.properties id name p hp
      obtain ⟨r, hr, hflags', hfixed'⟩ := hstep.properties id name q hq
      refine ⟨r, hr, hflags'.trans hflags, ?_⟩
      intro hw
      obtain rfl := hfixed hw
      exact hfixed' hw

/-- An index that is in range stays in range and gives the same element. -/
theorem Store.Grows.elementAt_eq (h : s.Grows s') {id : ArrayId} (hid : s.Has (.array id))
    {index : Int} (hlt : index < (s.elements id).size) :
    s'.elementAt id index = s.elementAt id index := by
  obtain ⟨more, hmore⟩ := h.elements id hid
  unfold Store.elementAt
  split
  · rfl
  · next hneg =>
    have hnat : index.toNat < (s.elements id).toList.length := by
      rw [Array.length_toList]
      omega
    rw [← Array.getElem?_toList, ← hmore, List.getElem?_append_left hnat, Array.getElem?_toList]

end Scriptlet
