import Scriptlet.Proofs.Machine.Upkeep
import Scriptlet.Proofs.Session.CallPaths
import Scriptlet.Proofs.Store.Walk

/-!
# Object literals are ordered maps

The pairs of an object literal are written to a table one after the other. A key that comes again
keeps its first place and takes the last value (`Table.keys_writeAll`, `Table.get?_writeAll`). All
values are evaluated, from left to right, also those that a later pair replaces; the object comes
after all of them (`Eval.entries_eq`).

Programs see an object through its properties, `in`, the natives `len` and `keys`, and its text.
`Machine.Presents` says what all of these show of one list of keys.
-/

namespace Scriptlet

/-! ## Tables -/

/-- The value of the last pair that has the key; undefined if none has it. -/
def lastValue (pairs : List (String × Value)) (key : String) : Value :=
  (pairs.reverse.lookup key).getD .undefined

namespace Table

/-- A table after values are written to it, one after the other. -/
def writeAll (t : Table Property) (pairs : List (String × Value)) : Table Property :=
  pairs.foldl (fun t pair => t.put pair.1 { value := pair.2 }) t

theorem writeAll_concat (t : Table Property) (pairs : List (String × Value)) (key : String)
    (v : Value) :
    t.writeAll (pairs ++ [(key, v)]) = (t.writeAll pairs).put key { value := v } := by
  rw [writeAll, List.foldl_append]
  rfl

/-- The keys stand in the order in which each came first. -/
theorem keys_writeAll (pairs : List (String × Value)) :
    (writeAll [] pairs).keys = (pairs.map (·.1)).eraseDups := by
  induction pairs using List.reverseRecOn with
  | nil => rfl
  | append_singleton pairs pair ih =>
    obtain ⟨key, v⟩ := pair
    have hmem : (writeAll [] pairs).contains key = true ↔ key ∈ pairs.map (·.1) := by
      rw [contains_iff_mem_keys, ih, List.mem_eraseDups]
    rw [writeAll_concat, keys_put, ih, List.map_append, List.map_singleton, List.eraseDups_append]
    -- a key that came before is written in place, and is dropped as a duplicate
    by_cases hkey : key ∈ pairs.map (·.1)
    · rw [if_pos (hmem.mpr hkey)]
      simp [List.removeAll, hkey]
    · rw [if_neg (mt hmem.mp hkey)]
      simp [List.removeAll, hkey, List.eraseDups_cons]

/-- Under each key is the value that came last. -/
theorem get?_writeAll (pairs : List (String × Value)) (key : String) :
    (writeAll [] pairs).get? key = (pairs.reverse.lookup key).map fun v => { value := v } := by
  induction pairs using List.reverseRecOn with
  | nil => rfl
  | append_singleton pairs pair ih =>
    obtain ⟨last, v⟩ := pair
    rw [writeAll_concat, get?_put, ih, List.reverse_append, List.reverse_singleton,
      List.singleton_append, List.lookup_cons]
    by_cases hkey : key = last
    · rw [if_pos hkey.symm, beq_iff_eq.mpr hkey]
      rfl
    · rw [if_neg (Ne.symm hkey), beq_false_of_ne hkey]

theorem nodup_keys_writeAll (pairs : List (String × Value)) : (writeAll [] pairs).keys.Nodup := by
  induction pairs using List.reverseRecOn with
  | nil => exact List.nodup_nil
  | append_singleton pairs pair ih =>
    rw [writeAll_concat]
    exact nodup_keys_put ih _ _

/-- A table without repetition is known by its keys and what is under them. -/
theorem eq_map_keys {β : Type} {t : Table β} {f : String → β} (hnodup : t.keys.Nodup)
    (h : ∀ key ∈ t.keys, t.get? key = some (f key)) : t = t.keys.map fun key => (key, f key) := by
  induction t with
  | nil => rfl
  | cons pair rest ih =>
    obtain ⟨key, entry⟩ := pair
    obtain ⟨hnew, hnodup⟩ := List.nodup_cons.mp hnodup
    obtain ⟨hhead, hrest⟩ := List.forall_mem_cons.mp h
    have hentry : entry = f key := by
      rw [get?, if_pos rfl] at hhead
      exact Option.some.inj hhead
    -- the other keys are not the first one, so looking them up passes it by
    have htail := ih hnodup fun other hother => by
      have hne : key ≠ other := fun he => hnew (he ▸ hother)
      have hget := hrest other hother
      rwa [get?, if_neg hne] at hget
    rw [keys, List.map_cons, List.map_cons, hentry]
    exact congrArg _ htail

theorem writeAll_eq_map (pairs : List (String × Value)) :
    writeAll [] pairs =
      (pairs.map (·.1)).eraseDups.map fun key => (key, { value := lastValue pairs key }) := by
  have hmap := eq_map_keys (f := fun key => { value := lastValue pairs key })
    (nodup_keys_writeAll pairs) fun key hkey => by
      rw [← contains_iff_mem_keys, contains, get?_writeAll, Option.isSome_map] at hkey
      obtain ⟨v, hv⟩ := Option.isSome_iff_exists.mp hkey
      rw [get?_writeAll, lastValue, hv]
      rfl
  rwa [keys_writeAll] at hmap

end Table

/-! ## What there is to see of an object -/

namespace Store

variable {s : Store} {id : ObjectId} {t : Table Property}

/-- An object without prototype is all of its chain. -/
theorem prototypeChain_of_alone (h : s.objectAt? id = some ⟨none, t, none⟩) :
    s.prototypeChain id = [id] := by
  have hnone : s.prototype? id = none := by
    rw [prototype?, h]
    rfl
  exact (Walk.stop hnone).follow_eq (Nat.one_le_of_lt (Array.getElem?_eq_some_iff.mp h).1)

theorem properties_of_objectAt? (h : s.objectAt? id = some ⟨none, t, none⟩) :
    s.properties id = t := by
  rw [properties, h]
  rfl

theorem getProperty_of_alone (h : s.objectAt? id = some ⟨none, t, none⟩) (name : String) :
    s.getProperty id name = ((t.get? name).map (·.value)).getD .undefined := by
  rw [getProperty, prototypeChain_of_alone h, List.findSome?_singleton, properties_of_objectAt? h]

theorem operate_isIn_of_alone (h : s.objectAt? id = some ⟨none, t, none⟩) (limit : Nat)
    {key : Value} {name : String} (hname : key.characters? = some name) :
    s.operate limit .isIn key (.object id) = .ok (.bool (decide (name ∈ t.keys))) := by
  have hhas : s.hasProperty id name = decide (name ∈ t.keys) := by
    rw [hasProperty, prototypeChain_of_alone h, List.any_cons, List.any_nil, Bool.or_false,
      properties_of_objectAt? h, Bool.eq_iff_iff, Table.contains_iff_mem_keys, decide_eq_true_iff]
  show s.membership key (.object id) = _
  unfold membership
  simp only [hname, hhas]

theorem format_of_plain (h : s.objectAt? id = some ⟨none, t, none⟩) (limit : Nat) :
    s.format (limit + 1) (.object id) = do
      return braced 0 (← t.mapM fun (key, p) => do
        return key ++ ": " ++ (← s.nested limit 1 p.value)) := by
  have hplain : s.function? id = none := by
    rw [function?, h]
    rfl
  show s.nested (limit + 1) 0 (.object id) = _
  rw [nested, hplain, properties_of_objectAt? h]

end Store

/-- The object is the function that the standard module has under the name. -/
def Store.IsStandard (s : Store) (name : String) (id : ObjectId) : Prop :=
  ∃ f ∈ Session.natives, f.name = name ∧ s.function? id = some f

/-- All that can be seen of an object that has these names, in this order and none of them twice,
and under each of them what `read` gives. -/
structure Machine.Presents (m : Machine) (id : ObjectId) (names : List String)
    (read : String → Value) : Prop where
  alone : m.store.prototype? id = none
  plain : m.store.function? id = none
  nodup : names.Nodup
  own : m.store.properties id = names.map fun name => (name, { value := read name })
  get : ∀ name, m.store.getProperty id name = read name
  isIn : ∀ limit key name, key.characters? = some name →
    m.store.operate limit .isIn key (.object id) = .ok (.bool (decide (name ∈ names)))
  len : ∀ depth f, m.store.IsStandard "len" f → ∃ m', m'.store = m.store ∧
    Eval.invoke (depth + 1) f [.object id] m = .ok (.int names.length) m'
  keys : ∀ depth f, m.store.IsStandard "keys" f → ∃ array m',
    Eval.invoke (depth + 1) f [.object id] m = .ok (.array array) m' ∧
      (m'.store.elements array).toList = names.map Value.string
  format : ∀ limit, m.store.format (limit + 1) (.object id) = do
    return braced 0 (← names.mapM fun name => do
      return name ++ ": " ++ (← m.store.nested limit 1 (read name)))

namespace Session

/-- The natives of the standard module have different names. -/
theorem eq_of_mem_natives {f g : Function} (hf : f ∈ natives) (hg : g ∈ natives)
    (h : f.name = g.name) : f = g :=
  List.inj_on_of_nodup_map (f := Function.name) (by decide) hf hg h

end Session

namespace Eval

variable {m : Machine}

/-- A native of the standard module that is called with a number of arguments that it takes. Nothing
happens before it runs, other than that the call is recorded. -/
theorem invoke_standard {name : String} {action : Native} {arity : Nat} {f : ObjectId}
    {args : List Value} (hname : (name, action, some arity) ∈ Native.standard)
    (hf : m.store.IsStandard name f) (hcount : args.length ≤ arity) (depth : Nat) :
    ∃ m', m'.store = m.store ∧
      invoke (depth + 1) f args m = action.run (invoke depth) depth args m' := by
  obtain ⟨g, hg, rfl, hfunction⟩ := hf
  have hmem : (⟨g.name, true, .native action (some arity)⟩ : Function) ∈ Session.natives :=
    List.mem_map.mpr ⟨_, hname, rfl⟩
  rw [Session.eq_of_mem_natives hg hmem rfl] at hfunction
  have harity : m.store.checkArity f args.length = .ok () := by
    rw [Store.checkArity, hfunction]
    exact if_neg (Nat.not_lt.mpr hcount)
  have hask : ask (·.function? f) m = .ok (some ⟨g.name, true, .native action (some arity)⟩) m :=
    congrArg (EStateM.Result.ok · m) hfunction
  have hnote : note (.called g.name args.length) m =
      .ok () (m.noted (.called g.name args.length)) := rfl
  refine ⟨m.noted (.called g.name args.length), Machine.noted_store m _, ?_⟩
  rw [invoke, invokeOf, bind_ok (Does.query_ok harity), bind_ok hask]
  exact bind_ok hnote

theorem invoke_len {f : ObjectId} (hf : m.store.IsStandard "len" f) (depth : Nat)
    (id : ObjectId) :
    ∃ m', m'.store = m.store ∧
      invoke (depth + 1) f [.object id] m = .ok (.int (m.store.properties id).length) m' := by
  have hname : ("len", Native.len, some 1) ∈ Native.standard := by decide
  have hcount : [Value.object id].length ≤ 1 := le_rfl
  obtain ⟨m', hstore, hrun⟩ := invoke_standard hname hf hcount depth
  refine ⟨m', hstore, ?_⟩
  rw [hrun, ← hstore]
  rfl

theorem invoke_keys {f : ObjectId} (hf : m.store.IsStandard "keys" f) (depth : Nat)
    (id : ObjectId) :
    ∃ array m', invoke (depth + 1) f [.object id] m = .ok (.array array) m' ∧
      (m'.store.elements array).toList = (m.store.properties id).keys.map Value.string := by
  have hname : ("keys", Native.keys, some 1) ∈ Native.standard := by decide
  have hcount : [Value.object id].length ≤ 1 := le_rfl
  obtain ⟨m', hstore, hrun⟩ := invoke_standard hname hf hcount depth
  refine ⟨⟨m'.store.arrays.size⟩, _, hrun, ?_⟩
  rw [← hstore]
  exact congrArg Array.toList ((Store.elements_addArray m'.store _ _).trans (if_pos rfl))

/-! ## The literal -/

/-- All values are evaluated, from left to right, and only then is anything written. -/
theorem entries_eq (eval : Evaluator) (scope : ScopeId) (pairs : List (String × Node))
    (found : Table Property) :
    entries eval scope pairs found = do
      return found.writeAll ((pairs.map (·.1)).zip (← (pairs.map (·.2)).mapM (eval · scope))) := by
  induction pairs generalizing found with
  | nil => rfl
  | cons pair rest ih =>
    obtain ⟨key, node⟩ := pair
    -- writing is no action, so it does not matter that it is done in between
    simp only [entries, ih, List.map_cons, List.mapM_cons, bind_assoc, pure_bind,
      List.zip_cons_cons]
    rfl

end Eval

namespace Machine

variable {m : Machine} {id : ObjectId}

theorem presents_writeAll {pairs : List (String × Value)}
    (h : m.store.objectAt? id = some ⟨none, .writeAll [] pairs, none⟩) :
    m.Presents id (pairs.map (·.1)).eraseDups (lastValue pairs) where
  alone := by
    rw [Store.prototype?, h]
    rfl
  plain := by
    rw [Store.function?, h]
    rfl
  nodup := by
    rw [← Table.keys_writeAll]
    exact Table.nodup_keys_writeAll pairs
  own := (Store.properties_of_objectAt? h).trans (Table.writeAll_eq_map pairs)
  get name := by
    rw [Store.getProperty_of_alone h, Table.get?_writeAll, Option.map_map, lastValue]
    exact congrArg (Option.getD · _) Option.map_id'
  isIn limit key name hname := by
    rw [Store.operate_isIn_of_alone h limit hname, Table.keys_writeAll]
  len depth f hf := by
    have hcount : (pairs.map (·.1)).eraseDups.length = (m.store.properties id).length := by
      rw [← Table.keys_writeAll, Table.keys, List.length_map, Store.properties_of_objectAt? h]
    rw [hcount]
    exact Eval.invoke_len hf depth id
  keys depth f hf := by
    rw [← Table.keys_writeAll, ← Store.properties_of_objectAt? h]
    exact Eval.invoke_keys hf depth id
  format limit := by
    rw [Store.format_of_plain h, Table.writeAll_eq_map, List.mapM_map]
    rfl

end Machine

namespace Eval

variable {depth line : Nat} {pairs : List (String × Node)} {scope : ScopeId} {m m₁ : Machine}

theorem value_object_of_error {fault : Fault}
    (h : (pairs.map (·.2)).mapM (value depth · scope) m = .error fault m₁) :
    value (depth + 1) (.object line pairs) scope m = .error fault m₁ := by
  rw [value, valueOf, entries_eq, bind_assoc]
  exact bind_error h

theorem value_object_of_ok {vs : List Value}
    (h : (pairs.map (·.2)).mapM (value depth · scope) m = .ok vs m₁) :
    value (depth + 1) (.object line pairs) scope m =
      newObject none (.writeAll [] ((pairs.map (·.1)).zip vs)) m₁ := by
  rw [value, valueOf, entries_eq, bind_assoc]
  exact bind_ok h

/-- An object literal evaluates the values of all its pairs, from left to right. If one of them
fails, so does the literal, in the same way. Otherwise the literal adds one object, which was not
there before, and changes nothing else. As long as nobody writes to that object it has no prototype,
its keys are those of the pairs in the order in which each came first, and under each key is the
value of the last pair that has it; whatever asks for its properties, for a key among them, for
their number, for their names or for their text finds these. -/
theorem object_literal_is_ordered_map (depth line : Nat) (pairs : List (String × Node))
    (scope : ScopeId) (m : Machine) :
    (∀ fault m₁, (pairs.map (·.2)).mapM (value depth · scope) m = .error fault m₁ →
      value (depth + 1) (.object line pairs) scope m = .error fault m₁) ∧
    ∀ vs m₁, (pairs.map (·.2)).mapM (value depth · scope) m = .ok vs m₁ →
      vs.length = pairs.length ∧
      ∃ id o m₂, value (depth + 1) (.object line pairs) scope m = .ok (.object id) m₂ ∧
        m₁.store.objectAt? id = none ∧ m₂ = { m₁ with store := (m₁.store.addObject o).2 } ∧
        ∀ m' : Machine, m'.store.objectAt? id = m₂.store.objectAt? id →
          m'.Presents id (pairs.map (·.1)).eraseDups (lastValue ((pairs.map (·.1)).zip vs)) := by
  refine ⟨fun fault m₁ h => value_object_of_error h, ?_⟩
  intro vs m₁ h
  have hlength : vs.length = pairs.length := (length_of_mapM_eq_ok h).trans (List.length_map _)
  refine ⟨hlength, _, _, _, value_object_of_ok h, Array.getElem?_size, rfl, ?_⟩
  intro m' hm'
  have hkeys : ((pairs.map (·.1)).zip vs).map (·.1) = pairs.map (·.1) :=
    List.map_fst_zip (by rw [List.length_map, hlength])
  have hobject := hm'.trans ((Store.objectAt?_addObject m₁.store _ _).trans (if_pos rfl))
  have hpresents := Machine.presents_writeAll hobject
  rwa [hkeys] at hpresents

/-- Of three pairs the first and the last have the same key: all three values are evaluated, the key
keeps its place, and the last value counts. -/
theorem object_literal_of_repeated_key :
    let m := Session.start false
    let pairs := [("a", Node.bool 1 true), ("b", .string 1 "x"), ("a", .bool 1 false)]
    (pairs.map (·.2)).mapM (value 1 · Session.mainScope) m =
      .ok [.bool true, .string "x", .bool false] m ∧
    ∃ id m₂, value 2 (.object 1 pairs) Session.mainScope m = .ok (.object id) m₂ ∧
      m₂.store.properties id = [("a", { value := .bool false }), ("b", { value := .string "x" })] ∧
      m₂.store.operate 1 .isIn (.char 'b') (.object id) = .ok (.bool true) ∧
      m₂.store.format 2 (.object id) = .ok "\x7b a: false, b: \"x\" \x7d" ∧
      (∃ m', invoke 1 ⟨1⟩ [.object id] m₂ = .ok (.int 2) m') ∧
      ∃ array m', invoke 1 ⟨4⟩ [.object id] m₂ = .ok (.array array) m' ∧
        (m'.store.elements array).toList = [.string "a", .string "b"] := by
  intro m pairs
  have hvalues : (pairs.map (·.2)).mapM (value 1 · Session.mainScope) m =
      .ok [.bool true, .string "x", .bool false] m := rfl
  obtain ⟨-, hliteral⟩ := object_literal_is_ordered_map 1 1 pairs Session.mainScope m
  obtain ⟨-, id, o, m₂, hvalue, -, hadded, hpresents⟩ := hliteral _ _ hvalues
  have hseen := hpresents m₂ rfl
  have hlen : m₂.store.IsStandard "len" ⟨1⟩ := by
    rw [hadded]
    exact ⟨_, List.getElem_mem (by decide : 1 < Session.natives.length), rfl, rfl⟩
  have hkeys : m₂.store.IsStandard "keys" ⟨4⟩ := by
    rw [hadded]
    exact ⟨_, List.getElem_mem (by decide : 4 < Session.natives.length), rfl, rfl⟩
  obtain ⟨m', -, hcount⟩ := hseen.len 0 ⟨1⟩ hlen
  refine ⟨hvalues, id, m₂, hvalue, hseen.own, hseen.isIn 1 (.char 'b') "b" rfl, ?_, ⟨m', hcount⟩,
    hseen.keys 0 ⟨4⟩ hkeys⟩
  rw [hseen.format]
  rfl

end Eval

end Scriptlet
