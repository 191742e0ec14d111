import Scriptlet.Proofs.Session.Binding
import Scriptlet.Proofs.Store.Renaming
import Scriptlet.Proofs.Store.Walk

/-!
# Names and the scopes around them

Scopes form a forest: each was opened inside a scope that was there already, or inside none. A name
is looked up from a scope outward, and the first scope that declares it answers. A change to the
table of one scope is felt by all scopes inside of it, as far as nothing in between declares the
name as well.

* `Store.Nested` : every scope is younger than the scope around it.
* `Store.Nested.resolve?_eq` : what a scope does not declare it looks up in the scope around it.
* `Store.Unshadowed` : from one scope a name is looked for in another one.
* `Store.Nested.resolve?_modifyEntries_of_unshadowed`, `_of_shadowed` : the look-ups that feel a
  change to a table, and those that do not.
* `Grown` : the machines that come about by opening scopes, declaring names and emptying scopes.
-/

namespace Scriptlet

open Eval

theorem Table.get?_eq_none_iff {β : Type} {t : Table β} {name : String} :
    t.get? name = none ↔ name ∉ t.keys := by
  rw [← Option.not_isSome_iff_eq_none, ← contains_iff_mem_keys, contains]

namespace Store

variable {s : Store} {id other p : ScopeId} {name : String} {f : Table Entity → Table Entity}

/-! ## Every chain ends -/

/-- Every scope was opened later than the scope around it. -/
def Nested (s : Store) : Prop := ∀ id p, s.parent? id = some p → p.index < id.index

theorem has_of_parent? (h : s.parent? id = some p) : s.Has (.scope id) := by
  obtain ⟨c, hc, -⟩ := Option.bind_eq_some_iff.mp h
  exact (Array.getElem?_eq_some_iff.mp hc).1

theorem Nested.has_parent (hs : s.Nested) (h : s.parent? id = some p) : s.Has (.scope p) :=
  Nat.lt_trans (hs id p h) (has_of_parent? h)

/-- What passes from a scope to those directly inside of it holds of all scopes. -/
theorem Nested.outward (hs : s.Nested) {P : ScopeId → Prop}
    (step : ∀ id, (∀ p, s.parent? id = some p → P p) → P id) (id : ScopeId) : P id := by
  induction hn : id.index using Nat.strongRecOn generalizing id with
  | ind n ih =>
    refine step id ?_
    intro p hp
    exact ih p.index (hn ▸ hs id p hp) p rfl

theorem Nested.exists_walk (hs : s.Nested) (id : ScopeId) :
    ∃ l, Walk s.parent? id l ∧ l.length ≤ id.index + 1 := by
  induction id using hs.outward with
  | step id ih =>
    cases hp : s.parent? id with
    | none => exact ⟨[id], .stop hp, by simp⟩
    | some p =>
      obtain ⟨l, hl, hlength⟩ := ih p hp
      have hlt := hs id p hp
      exact ⟨id :: l, .step hp hl, by simp only [List.length_cons]; omega⟩

/-- The chain of a scope is the whole way outward. -/
theorem Nested.walk_scopeChain (hs : s.Nested) (hid : s.Has (.scope id)) :
    Walk s.parent? id (s.scopeChain id) := by
  obtain ⟨l, hl, hlength⟩ := hs.exists_walk id
  have hchain : s.scopeChain id = l := hl.follow_eq (Nat.le_trans hlength hid)
  exact hchain ▸ hl

theorem Nested.scopeChain_eq (hs : s.Nested) (hid : s.Has (.scope id)) :
    s.scopeChain id = id :: ((s.parent? id).map s.scopeChain).getD [] := by
  have hwalk := hs.walk_scopeChain hid
  cases hp : s.parent? id with
  | none => exact hwalk.unique (.stop hp)
  | some p => exact hwalk.unique (.step hp (hs.walk_scopeChain (hs.has_parent hp)))

/-- What a scope does not declare it looks up in the scope around it. -/
theorem Nested.resolve?_eq (hs : s.Nested) (hid : s.Has (.scope id)) (name : String) :
    s.resolve? id name =
      ((s.entries id).get? name).or ((s.parent? id).bind (s.resolve? · name)) := by
  rw [resolve?, hs.scopeChain_eq hid, List.findSome?_cons]
  cases hget : (s.entries id).get? name with
  | some e => rfl
  | none =>
    cases s.parent? id with
    | none => rfl
    | some p => rfl

/-! ## The scope that answers -/

/-- The second scope is on the chain of the first one, and no scope before it declares the name. -/
def Unshadowed (s : Store) (name : String) (id other : ScopeId) : Prop :=
  ∃ inner outer, s.scopeChain id = inner ++ other :: outer ∧
    ∀ between ∈ inner, name ∉ (s.entries between).keys

/-- The way to a scope ends there, or goes on past a scope without the name. -/
theorem Nested.unshadowed_iff (hs : s.Nested) (hid : s.Has (.scope id)) :
    s.Unshadowed name id other ↔
      id = other ∨ name ∉ (s.entries id).keys ∧
        ∃ p, s.parent? id = some p ∧ s.Unshadowed name p other := by
  rw [Unshadowed, hs.scopeChain_eq hid]
  constructor
  · rintro ⟨inner, outer, hchain, hinner⟩
    cases inner with
    | nil => exact .inl (List.cons.inj hchain).1
    | cons first inner =>
      obtain ⟨rfl, hchain⟩ := List.cons.inj hchain
      obtain ⟨hfirst, hinner⟩ := List.forall_mem_cons.mp hinner
      refine .inr ⟨hfirst, ?_⟩
      cases hp : s.parent? id with
      | none => simp [hp] at hchain
      | some p => exact ⟨p, rfl, inner, outer, by simpa [hp] using hchain, hinner⟩
  · rintro (rfl | ⟨hname, p, hp, inner, outer, hchain, hinner⟩)
    · exact ⟨[], _, rfl, by simp⟩
    · exact ⟨id :: inner, outer, by simp [hp, hchain],
        List.forall_mem_cons.mpr ⟨hname, hinner⟩⟩

/-- The way outward leads to older scopes. -/
theorem Nested.index_le (hs : s.Nested) (hid : s.Has (.scope id))
    (h : s.Unshadowed name id other) : other.index ≤ id.index := by
  induction id using hs.outward with
  | step id ih =>
    rcases (hs.unshadowed_iff hid).mp h with rfl | ⟨-, p, hp, hrest⟩
    · exact Nat.le_refl _
    · exact Nat.le_trans (ih p hp (hs.has_parent hp) hrest) (Nat.le_of_lt (hs id p hp))

/-- Where nothing hides the name, both scopes look it up alike. -/
theorem Nested.resolve?_of_unshadowed (hs : s.Nested) (hid : s.Has (.scope id))
    (h : s.Unshadowed name id other) : s.resolve? id name = s.resolve? other name := by
  induction id using hs.outward with
  | step id ih =>
    rcases (hs.unshadowed_iff hid).mp h with rfl | ⟨hname, p, hp, hrest⟩
    · rfl
    · rw [hs.resolve?_eq hid, Table.get?_eq_none_iff.mpr hname, Option.none_or, hp]
      exact ih p hp (hs.has_parent hp) hrest

/-- A name stands for what the first scope that declares it has under it. -/
theorem Nested.resolve?_eq_some_iff (hs : s.Nested) (hid : s.Has (.scope id)) {e : Entity} :
    s.resolve? id name = some e ↔
      ∃ owner, s.Unshadowed name id owner ∧ (s.entries owner).get? name = some e := by
  induction id using hs.outward with
  | step id ih =>
    rw [hs.resolve?_eq hid]
    cases hget : (s.entries id).get? name with
    | some own =>
      have hkey : name ∈ (s.entries id).keys := by
        by_contra hnone
        rw [Table.get?_eq_none_iff.mpr hnone] at hget
        cases hget
      constructor
      · intro he
        exact ⟨id, (hs.unshadowed_iff hid).mpr (.inl rfl), hget.trans he⟩
      · rintro ⟨owner, hway, howner⟩
        rcases (hs.unshadowed_iff hid).mp hway with rfl | ⟨hnone, -⟩
        · exact hget.symm.trans howner
        · exact absurd hkey hnone
    | none =>
      have hkey : name ∉ (s.entries id).keys := Table.get?_eq_none_iff.mp hget
      rw [Option.none_or, Option.bind_eq_some_iff]
      constructor
      · rintro ⟨p, hp, he⟩
        obtain ⟨owner, hway, howner⟩ := (ih p hp (hs.has_parent hp)).mp he
        exact ⟨owner, (hs.unshadowed_iff hid).mpr (.inr ⟨hkey, p, hp, hway⟩), howner⟩
      · rintro ⟨owner, hway, howner⟩
        rcases (hs.unshadowed_iff hid).mp hway with rfl | ⟨-, p, hp, hrest⟩
        · rw [hget] at howner
          cases howner
        · exact ⟨p, hp, (ih p hp (hs.has_parent hp)).mpr ⟨owner, hrest, howner⟩⟩

theorem resolve?_eq_none_iff : s.resolve? id name = none ↔
    ∀ scope ∈ s.scopeChain id, name ∉ (s.entries scope).keys := by
  simp only [resolve?, List.findSome?_eq_none_iff, Table.get?_eq_none_iff]

/-- Names are looked up from a scope outward to the scope without one around it, and the first scope
that declares the name answers. -/
structure Nearest (s : Store) : Prop where
  whole : ∀ id, s.Has (.scope id) → Walk s.parent? id (s.scopeChain id)
  found : ∀ id name e, s.Has (.scope id) → (s.resolve? id name = some e ↔
    ∃ owner, s.Unshadowed name id owner ∧ (s.entries owner).get? name = some e)
  missing : ∀ id name, s.resolve? id name = none ↔
    ∀ scope ∈ s.scopeChain id, name ∉ (s.entries scope).keys

theorem Nested.nearest (hs : s.Nested) : s.Nearest where
  whole _ hid := hs.walk_scopeChain hid
  found _ _ _ hid := hs.resolve?_eq_some_iff hid
  missing _ _ := resolve?_eq_none_iff

/-! ## A change to one table -/

@[simp] theorem has_scope_modifyEntries :
    (s.modifyEntries other f).Has (.scope id) ↔ s.Has (.scope id) := by
  simp [Has, modifyEntries]

theorem Nested.modifyEntries (hs : s.Nested) (other : ScopeId) (f : Table Entity → Table Entity) :
    (s.modifyEntries other f).Nested := by
  intro id p hp
  rw [parent?_modifyEntries] at hp
  exact hs id p hp

theorem entries_modifyEntries_self (h : s.Has (.scope id)) (f : Table Entity → Table Entity) :
    (s.modifyEntries id f).entries id = f (s.entries id) := by
  have hcell : s.scopeAt? id = some s.scopes[id.index] := Array.getElem?_eq_getElem h
  simp [entries, scopeAt?_modifyEntries, hcell]

/-- A look-up that ends before the changed table, or does not come there at all, is the same. -/
theorem Nested.resolve?_modifyEntries_of_shadowed (hs : s.Nested) (hid : s.Has (.scope id))
    (h : ¬ s.Unshadowed name id other) :
    (s.modifyEntries other f).resolve? id name = s.resolve? id name := by
  induction id using hs.outward with
  | step id ih =>
    have hne : other ≠ id := fun he => h ((hs.unshadowed_iff hid).mpr (.inl he.symm))
    rw [(hs.modifyEntries other f).resolve?_eq (has_scope_modifyEntries.mpr hid),
      hs.resolve?_eq hid, entries_modifyEntries_of_ne s hne, parent?_modifyEntries]
    cases hget : (s.entries id).get? name with
    | some own => rfl
    | none =>
      cases hp : s.parent? id with
      | none => rfl
      | some p =>
        have hrest : ¬ s.Unshadowed name p other := fun hrest =>
          h ((hs.unshadowed_iff hid).mpr (.inr ⟨Table.get?_eq_none_iff.mp hget, p, hp, hrest⟩))
        exact ih p hp (hs.has_parent hp) hrest

/-- A look-up that comes to the changed table has what is there now, or else what it would have had
from the scope around. -/
theorem Nested.resolve?_modifyEntries_of_unshadowed (hs : s.Nested) (hid : s.Has (.scope id))
    (hother : s.Has (.scope other)) (h : s.Unshadowed name id other) :
    (s.modifyEntries other f).resolve? id name =
      ((f (s.entries other)).get? name).or ((s.parent? other).bind (s.resolve? · name)) := by
  induction id using hs.outward with
  | step id ih =>
    rw [(hs.modifyEntries other f).resolve?_eq (has_scope_modifyEntries.mpr hid),
      parent?_modifyEntries]
    rcases (hs.unshadowed_iff hid).mp h with rfl | ⟨hname, p, hp, hrest⟩
    · rw [entries_modifyEntries_self hid]
      congr 1
      refine Option.bind_congr ?_
      intro p hp
      -- the scope around is older, so its chain does not come back
      have hout : ¬ s.Unshadowed name p id := fun hback =>
        absurd (hs.index_le (hs.has_parent hp) hback) (Nat.not_le_of_lt (hs id p hp))
      exact hs.resolve?_modifyEntries_of_shadowed (hs.has_parent hp) hout
    · have hne : other ≠ id := by
        rintro rfl
        exact absurd (hs.index_le (hs.has_parent hp) hrest) (Nat.not_le_of_lt (hs other p hp))
      rw [entries_modifyEntries_of_ne s hne, Table.get?_eq_none_iff.mpr hname, Option.none_or, hp]
      exact ih p hp (hs.has_parent hp) hrest

/-! ## What the changes do to the look-ups -/

/-- From some scopes some names now stand for something else; all other look-ups are the same. -/
def Redirects (s s' : Store) (P : ScopeId → String → Prop) (target : String → Option Entity) :
    Prop :=
  ∀ id name, s.Has (.scope id) →
    (P id name → s'.resolve? id name = target name) ∧
      (¬ P id name → s'.resolve? id name = s.resolve? id name)

/-- A new name is found from all scopes where no nearer one hides it. -/
theorem Nested.redirects_bind (hs : s.Nested) {scope : ScopeId} (hscope : s.Has (.scope scope))
    (hfree : name ∉ (s.entries scope).keys) (e : Entity) :
    s.Redirects (s.bind scope name e)
      (fun id other => other = name ∧ s.Unshadowed name id scope) (fun _ => some e) := by
  intro id other hid
  have hget : Table.get? (s.entries scope ++ [(name, e)]) other =
      ((s.entries scope).get? other).or (if name = other then some e else none) :=
    Table.get?_append_or _ _ other
  by_cases hway : s.Unshadowed other id scope
  · rw [bind, hs.resolve?_modifyEntries_of_unshadowed hid hscope hway, hget]
    by_cases he : name = other
    · subst he
      rw [if_pos rfl, Table.get?_eq_none_iff.mpr hfree]
      exact ⟨fun _ => rfl, fun hout => absurd ⟨rfl, hway⟩ hout⟩
    · rw [if_neg he, Option.or_none, ← hs.resolve?_eq hscope, hs.resolve?_of_unshadowed hid hway]
      exact ⟨fun hin => absurd hin.1.symm he, fun _ => rfl⟩
  · refine ⟨?_, fun _ => hs.resolve?_modifyEntries_of_shadowed hid hway⟩
    rintro ⟨rfl, hin⟩
    exact absurd hin hway

/-- Where a name was found in the emptied scope, it is looked for in the scope around it. -/
theorem Nested.redirects_clean (hs : s.Nested) {scope : ScopeId} (hscope : s.Has (.scope scope)) :
    s.Redirects (s.clean scope)
      (fun id name => name ∈ (s.entries scope).keys ∧ s.Unshadowed name id scope)
      (fun name => (s.parent? scope).bind (s.resolve? · name)) := by
  intro id name hid
  by_cases hway : s.Unshadowed name id scope
  · rw [clean, hs.resolve?_modifyEntries_of_unshadowed hid hscope hway, Table.get?_nil,
      Option.none_or]
    refine ⟨fun _ => rfl, ?_⟩
    intro hout
    have hnone : name ∉ (s.entries scope).keys := fun hkey => hout ⟨hkey, hway⟩
    rw [hs.resolve?_of_unshadowed hid hway, hs.resolve?_eq hscope,
      Table.get?_eq_none_iff.mpr hnone, Option.none_or]
  · exact ⟨fun hin => absurd hin.2 hway, fun _ => hs.resolve?_modifyEntries_of_shadowed hid hway⟩

/-! ## A new scope -/

theorem parent?_addScope (owner : String) (parent : Option ScopeId) (id : ScopeId) :
    (s.addScope owner parent).2.parent? id =
      if id.index = s.scopes.size then parent else s.parent? id := by
  rw [parent?, scopeAt?_addScope]
  split <;> rfl

theorem entries_addScope (owner : String) (parent : Option ScopeId) (id : ScopeId) :
    (s.addScope owner parent).2.entries id =
      if id.index = s.scopes.size then [] else s.entries id := by
  rw [entries, scopeAt?_addScope]
  split <;> rfl

theorem has_scope_addScope {owner : String} {parent : Option ScopeId} :
    (s.addScope owner parent).2.Has (.scope id) ↔ id.index < s.scopes.size + 1 := by
  simp [Has, addScope]

theorem Nested.addScope (hs : s.Nested) (owner : String) {parent : Option ScopeId}
    (around : ∀ p ∈ parent, s.Has (.scope p)) : (s.addScope owner parent).2.Nested := by
  intro id p hp
  rw [parent?_addScope] at hp
  split at hp
  · next hnew => exact hnew ▸ around p hp
  · exact hs id p hp

/-- A scope that was there looks up what it did before. -/
theorem Nested.resolve?_addScope (hs : s.Nested) (owner : String) {parent : Option ScopeId}
    (around : ∀ p ∈ parent, s.Has (.scope p)) (hid : s.Has (.scope id)) (name : String) :
    (s.addScope owner parent).2.resolve? id name = s.resolve? id name := by
  induction id using hs.outward with
  | step id ih =>
    have hlt : id.index < s.scopes.size := hid
    rw [(hs.addScope owner around).resolve?_eq (has_scope_addScope.mpr (by omega)),
      hs.resolve?_eq hid, entries_addScope, parent?_addScope, if_neg (by omega), if_neg (by omega)]
    congr 1
    refine Option.bind_congr ?_
    intro p hp
    exact ih p hp (hs.has_parent hp)

/-- A new scope looks up what the scope around it does. -/
theorem Nested.resolve?_addScope_new (hs : s.Nested) (owner : String) {parent : Option ScopeId}
    (around : ∀ p ∈ parent, s.Has (.scope p)) (name : String) :
    (s.addScope owner parent).2.resolve? ⟨s.scopes.size⟩ name =
      parent.bind (s.resolve? · name) := by
  have hnew : (s.addScope owner parent).2.Has (.scope ⟨s.scopes.size⟩) :=
    has_scope_addScope.mpr (Nat.lt_succ_self s.scopes.size)
  rw [(hs.addScope owner around).resolve?_eq hnew, entries_addScope, parent?_addScope, if_pos rfl,
    if_pos rfl, Table.get?_nil, Option.none_or]
  refine Option.bind_congr ?_
  intro p hp
  exact hs.resolve?_addScope owner around (around p hp) name

end Store

/-- Evaluation opens scopes only inside scopes that are there. -/
theorem Change.nested {π : Permit} {s s' : Store} (h : Change π s s') (hs : s.Nested) :
    s'.Nested := by
  cases h with
  | addScope owner parent around => exact hs.addScope owner around
  | bind id name e there allowed free held => exact hs.modifyEntries _ _
  | drop id keep allowed => exact hs.modifyEntries _ _
  | _ => exact hs

namespace Session

theorem nested_firstStore : firstStore.Nested := by
  rintro ⟨i⟩ p hp
  match i with
  | 0 => cases hp
  | 1 | 2 =>
    cases hp
    decide
  | i + 3 => cases hp

/-- The machines that come about from one at rest, or from that of a session after any steps of its
host, as scopes are opened, declared in and emptied, in any order. -/
inductive Grown : Machine → Prop where
  | rest (tracing : Bool) : Grown (.empty tracing)
  | played (tracing : Bool) (history : List (Nat × Step)) : Grown (play tracing history).machine
  | opened (owner : String) (parent : Option ScopeId) {m m' : Machine} {id : ScopeId}
      (before : Grown m) (around : ∀ p ∈ parent, m.store.Has (.scope p))
      (did : newScope owner parent m = .ok id m') : Grown m'
  | introduced (scope : ScopeId) (name : String) (e : Entity) {m m' : Machine} {isNew : Bool}
      (before : Grown m) (there : m.store.Has (.scope scope))
      (did : introduce scope name e m = .ok isNew m') : Grown m'
  | cleaned (scope : ScopeId) {m m' : Machine} (before : Grown m)
      (there : m.store.Has (.scope scope)) (did : change (·.clean scope) m = .ok () m') : Grown m'

variable {m : Machine} {scope : ScopeId} {name : String} {e : Entity}

theorem introduce_of_declared (h : name ∈ (m.store.entries scope).keys) :
    introduce scope name e m = .ok false m := by
  have hfree : m.store.isFree scope name = false := by
    rw [Bool.eq_false_iff, ne_eq, Store.isFree_iff, not_not]
    exact h
  have hask : ask (·.isFree scope name) m = .ok false m := congrArg (EStateM.Result.ok · m) hfree
  rw [introduce, bind_ok hask]
  rfl

theorem Grown.nested (h : Grown m) : m.store.Nested := by
  induction h with
  | rest tracing => rintro id p ⟨⟩
  | played tracing history =>
    exact (play_spec tracing history).2.keeps (fun hc => hc.nested) nested_firstStore
  | opened owner parent _ around did ih =>
    cases did
    exact ih.addScope owner around
  | @introduced scope name e m m' isNew _ there did ih =>
    by_cases hkey : name ∈ (m.store.entries scope).keys
    · rw [introduce_of_declared hkey] at did
      cases did
      exact ih
    · rw [introduce_of_isFree (Store.isFree_iff.mpr hkey)] at did
      cases did
      exact ih.modifyEntries _ _
  | cleaned scope _ there did ih =>
    cases did
    exact ih.modifyEntries _ _

/-- However scopes were opened, declared in and emptied, the nearest declaration of a name counts. A
new scope looks up what the one around it does. Declaring a name that a scope has is refused and
does nothing; declaring another one is felt from exactly the scopes where nothing nearer has the
name. Emptying a scope is felt where its own names were found in it: they are what they are in the
scope around it. -/
theorem lookup_finds_nearest_declaration (h : Grown m) :
    m.store.Nearest ∧
    (∀ owner parent, (∀ p ∈ parent, m.store.Has (.scope p)) →
      ∃ id m', newScope owner parent m = .ok id m' ∧ ¬ m.store.Has (.scope id) ∧
        m.store.Redirects m'.store (fun _ _ => False) (fun _ => none) ∧
        ∀ name, m'.store.resolve? id name = parent.bind (m.store.resolve? · name)) ∧
    ∀ scope, m.store.Has (.scope scope) →
      (∀ name e,
        (name ∈ (m.store.entries scope).keys → introduce scope name e m = .ok false m) ∧
        (name ∉ (m.store.entries scope).keys →
          ∃ m', introduce scope name e m = .ok true m' ∧
            m.store.Redirects m'.store
              (fun id other => other = name ∧ m.store.Unshadowed name id scope)
              (fun _ => some e))) ∧
      ∃ m', change (·.clean scope) m = .ok () m' ∧
        m.store.Redirects m'.store
          (fun id name => name ∈ (m.store.entries scope).keys ∧ m.store.Unshadowed name id scope)
          (fun name => (m.store.parent? scope).bind (m.store.resolve? · name)) := by
  have hs := h.nested
  refine ⟨hs.nearest, ?_, ?_⟩
  · intro owner parent around
    refine ⟨_, _, rfl, Nat.lt_irrefl m.store.scopes.size, ?_, ?_⟩
    · intro id name hid
      exact ⟨False.elim, fun _ => hs.resolve?_addScope owner around hid name⟩
    · exact hs.resolve?_addScope_new owner around
  · intro scope hscope
    refine ⟨fun name e => ⟨introduce_of_declared, ?_⟩, _, rfl, hs.redirects_clean hscope⟩
    intro hfree
    exact ⟨_, introduce_of_isFree (Store.isFree_iff.mpr hfree), hs.redirects_bind hscope hfree e⟩

/-- Of three scopes, one inside the other, the outermost has `x`. Declared in the one between them
as well, `x` is another one there and in the innermost scope, and the same as before outside. -/
theorem inner_declaration_hides_outer :
    ∃ m, Grown m ∧ m.store.Has (.scope ⟨1⟩) ∧
      m.store.resolve? ⟨2⟩ "x" = some (.var ⟨0⟩) ∧
      ∃ m', introduce ⟨1⟩ "x" (.var ⟨1⟩) m = .ok true m' ∧
        m'.store.resolve? ⟨2⟩ "x" = some (.var ⟨1⟩) ∧
        m'.store.resolve? ⟨0⟩ "x" = some (.var ⟨0⟩) := by
  have houter : Grown _ := .opened "outer" none (.rest false) (by decide) rfl
  have hbetween : Grown _ := .opened "between" (some ⟨0⟩) houter (by decide) rfl
  have hinner : Grown _ := .opened "inner" (some ⟨1⟩) hbetween (by decide) rfl
  have hgrown : Grown _ := .introduced ⟨0⟩ "x" (.var ⟨0⟩) hinner (by decide) rfl
  have hlaw := (lookup_finds_nearest_declaration hgrown).2.2 ⟨1⟩ (by decide)
  obtain ⟨m', hdid, hfelt⟩ := (hlaw.1 "x" (.var ⟨1⟩)).2 (by decide)
  refine ⟨_, hgrown, by decide, by decide, m', hdid, ?_, ?_⟩
  · refine (hfelt ⟨2⟩ "x" (by decide)).1 ⟨rfl, [⟨2⟩], [⟨0⟩], by decide, by decide⟩
  · refine ((hfelt ⟨0⟩ "x" (by decide)).2 ?_).trans (by decide)
    rintro ⟨-, inner, outer, hchain, -⟩
    have hmem : (⟨1⟩ : ScopeId) ∈ inner ++ ⟨1⟩ :: outer := by simp
    rw [← hchain] at hmem
    revert hmem
    decide

end Session

end Scriptlet
