import Scriptlet.Proofs.Action
import Scriptlet.Proofs.Data.Shape
import Scriptlet.Proofs.Depth
import Scriptlet.Proofs.Machine.Layout
import Scriptlet.Store.View

/-!
# The value of a tree of data

Evaluating the tree of readable data gives a value that holds the data, on every machine and in
every scope (`Data.Readable.eventually_builds`). Each array and object of the tree becomes a new
cell, so what the parts hold is not disturbed while the others are evaluated: a store `Retains` what
it shows. The lines of the tree do not matter either (`Eval.Builds.of_like`).
-/

namespace Scriptlet

/-! ## What a store keeps on showing -/

/-- Two lists that are related item by item, of which the second one is known. -/
theorem forall₂_of_mem {α β : Type} {R S : α → β → Prop} {xs : List α} {ys : List β}
    (h : List.Forall₂ R xs ys) (hRS : ∀ y ∈ ys, ∀ x, R x y → S x y) : List.Forall₂ S xs ys := by
  induction h with
  | nil => exact .nil
  | cons hxy _ ih =>
    exact .cons (hRS _ List.mem_cons_self _ hxy) (ih fun y hy => hRS y (List.mem_cons_of_mem _ hy))

/-- The arrays and the plain objects of the one store are in the other, with the same elements and
properties. -/
structure Store.Retains (s t : Store) : Prop where
  arrays : ∀ {id : ArrayId} {elements : Array Value}, s.arrays[id.index]? = some elements →
    t.arrays[id.index]? = some elements
  objects : ∀ {id : ObjectId} {o : Object}, s.objectAt? id = some o → o.function = none →
    ∃ o', t.objectAt? id = some o' ∧ o'.function = none ∧ o'.properties = o.properties

namespace Store

variable {s t u : Store}

theorem Retains.refl (s : Store) : s.Retains s :=
  ⟨fun cell => cell, fun cell plain => ⟨_, cell, plain, rfl⟩⟩

theorem Retains.trans (h : s.Retains t) (h' : t.Retains u) : s.Retains u := by
  refine ⟨fun cell => h'.arrays (h.arrays cell), ?_⟩
  intro id o cell plain
  obtain ⟨o₁, cell₁, plain₁, same₁⟩ := h.objects cell plain
  obtain ⟨o₂, cell₂, plain₂, same₂⟩ := h'.objects cell₁ plain₁
  exact ⟨o₂, cell₂, plain₂, same₂.trans same₁⟩

theorem retains_addArray (s : Store) (elements : Array Value) :
    s.Retains (s.addArray elements).2 := by
  refine ⟨?_, fun cell plain => ⟨_, cell, plain, rfl⟩⟩
  intro id old cell
  have hlt := (Array.getElem?_eq_some_iff.mp cell).1
  rw [addArray, Array.getElem?_push, if_neg (Nat.ne_of_lt hlt), cell]

theorem retains_addObject (s : Store) (o : Object) : s.Retains (s.addObject o).2 := by
  refine ⟨fun cell => cell, ?_⟩
  intro id old cell plain
  have hlt : id.index < s.objects.size := (Array.getElem?_eq_some_iff.mp cell).1
  refine ⟨old, ?_, plain, rfl⟩
  rw [objectAt?_addObject, if_neg (Nat.ne_of_lt hlt), cell]

/-- Stores that differ in lines only show the same. -/
theorem retains_of_unlined_eq (h : s.unlined = t.unlined) : s.Retains t := by
  have harrays : s.unlined.arrays = t.unlined.arrays := congrArg Store.arrays h
  refine ⟨fun cell => (congrArg (·[_]?) harrays).symm.trans cell, ?_⟩
  intro id o cell plain
  have hobject : (t.objectAt? id).map Object.unlined = some o.unlined := by
    rw [← objectAt?_unlined, ← h, objectAt?_unlined, cell, Option.map_some]
  obtain ⟨o', cell', same⟩ := Option.map_eq_some_iff.mp hobject
  have hfunction : o'.unlined.function = o.unlined.function := congrArg Object.function same
  have hproperties : o'.unlined.properties = o.unlined.properties :=
    congrArg Object.properties same
  refine ⟨o', cell', ?_, hproperties⟩
  rw [Object.unlined, Object.unlined, plain] at hfunction
  exact Option.map_eq_none_iff.mp hfunction

/-- What a value holds, it goes on holding. -/
theorem Retains.shows {d : Data} (readable : d.Readable) (h : s.Retains t) :
    ∀ {v}, s.Shows v d → t.Shows v d := by
  induction readable with
  | undefined =>
    rintro _ ⟨⟩
    exact .undefined
  | primitive own =>
    rintro _ ⟨⟩
    exact .primitive _ _
  | array _ parts =>
    rintro _ (_ | _ | ⟨cell, shown⟩)
    exact .array (h.arrays cell) (forall₂_of_mem shown fun d hd _ hv => parts d hd hv)
  | object _ _ _ parts =>
    rintro _ (_ | _ | _ | ⟨cell, plain, shown⟩)
    obtain ⟨o', cell', plain', same⟩ := h.objects cell plain
    refine .object cell' plain' ?_
    rw [same]
    refine forall₂_of_mem shown ?_
    rintro _ hf _ ⟨key, own⟩
    exact .intro key (parts _ hf own)

end Store

/-- A new name goes to the end. -/
theorem Table.put_of_notMem {β : Type} {t : Table β} {name : String} (h : name ∉ t.keys)
    (entry : β) : t.put name entry = t ++ [(name, entry)] := by
  induction t with
  | nil => rfl
  | cons pair rest ih =>
    obtain ⟨key, old⟩ := pair
    rw [keys, List.map_cons, List.mem_cons, not_or] at h
    rw [put, if_neg (Ne.symm h.1), ih h.2, List.cons_append]

namespace Eval

open Data

variable {eval : Evaluator}

/-- Wherever the node is evaluated, it gives a value that holds the data. -/
def Builds (eval : Evaluator) (node : Node) (d : Data) : Prop :=
  ∀ scope m, ∃ v m', eval node scope m = .ok v m' ∧ m.store.Retains m'.store ∧ m'.store.Shows v d

/-! ## Arrays and objects -/

theorem elements_build {items : List Data} (readable : ∀ d ∈ items, d.Readable)
    (h : ∀ d ∈ items, Builds eval d.node d) (scope : ScopeId) (m : Machine) :
    ∃ vs m', (items.map node).mapM (eval · scope) m = .ok vs m' ∧
      m.store.Retains m'.store ∧ List.Forall₂ m'.store.Shows vs items := by
  induction items generalizing m with
  | nil => exact ⟨[], m, rfl, .refl _, .nil⟩
  | cons d items ih =>
    obtain ⟨readable_d, readable_items⟩ := List.forall_mem_cons.mp readable
    obtain ⟨hd, hitems⟩ := List.forall_mem_cons.mp h
    obtain ⟨v, m₁, hv, kept₁, shown⟩ := hd scope m
    obtain ⟨vs, m₂, hvs, kept₂, shown_items⟩ := ih readable_items hitems m₁
    refine ⟨v :: vs, m₂, ?_, kept₁.trans kept₂, .cons (kept₂.shows readable_d shown) shown_items⟩
    rw [List.map_cons, List.mapM_cons, bind_ok hv, bind_ok hvs]
    rfl

/-- The entries stand behind those found before, which have other keys. -/
theorem entries_build {fields : List (String × Data)} (distinct : (fields.map (·.1)).Nodup)
    (readable : ∀ field ∈ fields, field.2.Readable)
    (h : ∀ field ∈ fields, Builds eval field.2.node field.2) (scope : ScopeId)
    (found : Table Property) (fresh : ∀ field ∈ fields, field.1 ∉ found.keys) (m : Machine) :
    ∃ new m', entries eval scope (fields.map fun field => (field.1, field.2.node)) found m =
        .ok (found ++ new) m' ∧
      m.store.Retains m'.store ∧ List.Forall₂ m'.store.ShowsField new fields := by
  induction fields generalizing m found with
  | nil => exact ⟨[], m, by rw [List.append_nil]; rfl, .refl _, .nil⟩
  | cons field fields ih =>
    obtain ⟨readable_field, readable_fields⟩ := List.forall_mem_cons.mp readable
    obtain ⟨hfield, hfields⟩ := List.forall_mem_cons.mp h
    obtain ⟨fresh_field, fresh_fields⟩ := List.forall_mem_cons.mp fresh
    obtain ⟨other, distinct_fields⟩ := List.nodup_cons.mp distinct
    obtain ⟨v, m₁, hv, kept₁, shown⟩ := hfield scope m
    have hput := Table.put_of_notMem fresh_field ({ value := v } : Property)
    have fresh_then : ∀ field' ∈ fields, field'.1 ∉ (found.put field.1 { value := v }).keys := by
      intro field' hf
      rw [hput, Table.keys, List.map_append, List.mem_append, not_or]
      refine ⟨fresh_fields field' hf, ?_⟩
      rw [List.map_singleton, List.mem_singleton]
      exact fun heq => other (List.mem_map.mpr ⟨field', hf, heq⟩)
    obtain ⟨new, m₂, hnew, kept₂, shown_fields⟩ :=
      ih distinct_fields readable_fields hfields (found.put field.1 { value := v }) fresh_then m₁
    -- the value of this field was made before the others, and is still what it was
    refine ⟨(field.1, { value := v }) :: new, m₂, ?_, kept₁.trans kept₂, ?_⟩
    · rw [List.map_cons, entries, bind_ok hv, hnew, hput, List.append_assoc, List.singleton_append]
    · exact .cons (.intro field.1 (kept₂.shows readable_field shown)) shown_fields

/-! ## Trees -/

/-- The literal of a primitive gives the primitive. -/
theorem primitive_builds (p : Primitive) (depth : Nat) :
    Builds (value (depth + 1)) p.literal (.primitive p) := by
  intro scope m
  refine ⟨.primitive p 0, m, ?_, .refl _, .primitive p 0⟩
  cases p with
  | char c =>
    show valueOf _ _ _ (.char 0 (String.ofList [c])) scope m = _
    rw [valueOf, String.toList_ofList]
    rfl
  | _ => rfl

theorem array_builds {depth : Nat} {items : List Data} (readable : ∀ d ∈ items, d.Readable)
    (h : ∀ d ∈ items, Builds (value depth) d.node d) :
    Builds (value (depth + 1)) (Data.array items).node (.array items) := by
  intro scope m
  obtain ⟨vs, m', hvs, kept, shown⟩ := elements_build readable h scope m
  have added := Store.retains_addArray m'.store vs.toArray
  refine ⟨.array ⟨m'.store.arrays.size⟩, { m' with store := (m'.store.addArray vs.toArray).2 },
    ?_, kept.trans added, ?_⟩
  · rw [node_array]
    exact bind_ok hvs
  · refine .array Array.getElem?_push_size ?_
    exact forall₂_of_mem shown fun d hd _ hv => added.shows (readable d hd) hv

theorem object_builds {depth : Nat} {fields : List (String × Data)}
    (distinct : (fields.map (·.1)).Nodup) (readable : ∀ field ∈ fields, field.2.Readable)
    (h : ∀ field ∈ fields, Builds (value depth) field.2.node field.2) :
    Builds (value (depth + 1)) (Data.object fields).node (.object fields) := by
  intro scope m
  obtain ⟨new, m', hnew, kept, shown⟩ :=
    entries_build distinct readable h scope [] (fun _ _ hk => nomatch hk) m
  have added := Store.retains_addObject m'.store ⟨none, new, none⟩
  refine ⟨.object ⟨m'.store.objects.size⟩,
    { m' with store := (m'.store.addObject ⟨none, new, none⟩).2 }, ?_, kept.trans added, ?_⟩
  · rw [node_object]
    exact bind_ok hnew
  · refine .object Array.getElem?_push_size rfl (forall₂_of_mem shown ?_)
    rintro _ hf _ ⟨key, own⟩
    exact .intro key (added.shows (readable _ hf) own)

/-- Trees that differ in lines only give values that hold the same. -/
theorem Builds.of_like {depth : Nat} {node like : Node} {d : Data} (readable : d.Readable)
    (h : Builds (value depth) node d) (hlike : like.unlined = node.unlined) :
    Builds (value depth) like d := by
  intro scope m
  obtain ⟨v, m', hv, kept, shown⟩ := h scope m
  have blind := (evaluatorsBlind depth).value
  -- both trees have one mirror image, the tree without lines on the machine without lines
  have same : lineless.outcome id (value depth node scope m) =
      lineless.outcome id (value depth like scope m) := by
    rw [← (blind node scope).outcome_eq m, ← hlike, (blind like scope).outcome_eq m]
  rw [hv] at same
  cases hw : value depth like scope m with
  | ok w m'' =>
    rw [hw] at same
    injection same with hvalue hstate
    have also := Store.retains_of_unlined_eq (congrArg Machine.store hstate)
    obtain rfl : v = w := hvalue
    exact ⟨v, m'', rfl, kept.trans also, also.shows readable shown⟩
  | error fault m'' =>
    rw [hw] at same
    cases same

end Eval

open Filter Eval

/-- The tree of readable data gives a value that holds the data, at every depth from some depth
on. -/
theorem Data.Readable.eventually_builds {d : Data} (h : d.Readable) :
    ∀ᶠ depth in atTop, Builds (value depth) d.node d := by
  induction h with
  | undefined =>
    refine eventually_of_add 1 (.of_forall fun depth scope m => ?_)
    exact ⟨.undefined, m, rfl, .refl _, .undefined⟩
  | primitive own => exact eventually_of_add 1 (.of_forall (primitive_builds _))
  | array readable parts =>
    refine eventually_of_add 1 ?_
    filter_upwards [eventually_forall_mem parts] with depth hparts
    exact array_builds readable hparts
  | object words distinct readable parts =>
    refine eventually_of_add 1 ?_
    filter_upwards [eventually_forall_mem parts] with depth hparts
    exact object_builds distinct readable hparts

end Scriptlet
