import Scriptlet.Proofs.Store.Change

/-!
# What evaluation leaves alone

A scope that is there keeps its owner and its parent for ever. Its table is only ever written to
behind its last entry, under a name that it did not have, and only where the permit lets names be
declared in it.

* `Store.Extends` : names were added to a scope, and nothing else happened to it.
* `Changes.extends` : so it is after any number of steps.
-/

namespace Scriptlet

/-- Nothing happened to a scope but that new names with `P` were added behind those it had. -/
structure Store.Extends (P : String → Prop) (id : ScopeId) (s s' : Store) : Prop where
  owner : s'.owner id = s.owner id
  parent : s'.parent? id = s.parent? id
  entries : ∃ added : Table Entity, s'.entries id = s.entries id ++ added ∧
    added.keys.Nodup ∧ ∀ name ∈ added.keys, P name ∧ name ∉ (s.entries id).keys

variable {π : Permit} {s s' s'' : Store} {id : ScopeId} {P : String → Prop}

theorem Table.keys_append {β : Type} (t u : Table β) :
    Table.keys (t ++ u) = t.keys ++ u.keys := List.map_append

namespace Store.Extends

/-- Nothing happened to a scope whose cell is the same. -/
theorem of_scopeAt?_eq (h : s'.scopeAt? id = s.scopeAt? id) : Extends P id s s' where
  owner := by rw [Store.owner, h, Store.owner]
  parent := by rw [Store.parent?, h, Store.parent?]
  entries := by
    refine ⟨[], ?_, List.nodup_nil, by simp [Table.keys]⟩
    rw [Store.entries, h, List.append_nil, Store.entries]

theorem trans (h : Extends P id s s') (h' : Extends P id s' s'') : Extends P id s s'' where
  owner := h'.owner.trans h.owner
  parent := h'.parent.trans h.parent
  entries := by
    obtain ⟨first, hfirst, hnodup, hnew⟩ := h.entries
    obtain ⟨second, hsecond, hnodup', hnew'⟩ := h'.entries
    rw [hfirst] at hsecond hnew'
    refine ⟨first ++ second, by rw [hsecond, List.append_assoc], ?_, ?_⟩
    · rw [Table.keys_append]
      refine List.nodup_append.mpr ⟨hnodup, hnodup', ?_⟩
      intro a ha b hb he
      have hfresh := (hnew' b hb).2
      rw [Table.keys_append] at hfresh
      exact hfresh (List.mem_append_right _ (he ▸ ha))
    · intro name hname
      rw [Table.keys_append] at hname
      rcases List.mem_append.mp hname with hname | hname
      · exact hnew name hname
      · have hfresh := (hnew' name hname).2
        rw [Table.keys_append] at hfresh
        exact ⟨(hnew' name hname).1, fun hold => hfresh (List.mem_append_left _ hold)⟩

/-- Where no name may be added the table is the same. -/
theorem entries_eq (h : Extends P id s s') (hP : ∀ name, ¬ P name) :
    s'.entries id = s.entries id := by
  obtain ⟨added, hadded, -, hnew⟩ := h.entries
  cases added with
  | nil => rw [hadded, List.append_nil]
  | cons entry rest => exact absurd (hnew entry.1 List.mem_cons_self).1 (hP _)

end Store.Extends

/-- One step adds at most one name to a scope from which nothing may be dropped. -/
theorem Change.extends (h : Change π s s') (hid : s.Has (.scope id))
    (hd : ∀ name, ¬ π.drops id name) : s.Extends (π.Declares id) id s' := by
  change id.index < s.scopes.size at hid
  cases h with
  | addScope owner parent =>
    refine .of_scopeAt?_eq ?_
    rw [Store.scopeAt?_addScope, if_neg (by omega)]
  | bind other name e there allowed free =>
    by_cases he : other = id
    · subst he
      have hscope : s.scopeAt? other = some s.scopes[other.index] := Array.getElem?_eq_getElem hid
      refine ⟨Store.owner_modifyEntries .., Store.parent?_modifyEntries .., [(name, e)],
        Store.entries_bind s hscope name e, by simp [Table.keys], ?_⟩
      intro key hkey
      simp only [Table.keys, List.map_cons, List.map_nil, List.mem_singleton] at hkey
      subst hkey
      refine ⟨allowed, ?_⟩
      intro hold
      rw [Store.isFree, (Table.contains_iff_mem_keys _ _).mpr hold] at free
      cases free
    · refine .of_scopeAt?_eq ?_
      rw [Store.bind, Store.scopeAt?_modifyEntries, if_neg he]
  | drop other keep allowed =>
    refine .of_scopeAt?_eq ?_
    rw [Store.scopeAt?_modifyEntries]
    split
    · next he =>
      subst he
      -- whatever is dropped may be dropped, so nothing is
      have hscope : s.scopeAt? other = some s.scopes[other.index] := Array.getElem?_eq_getElem hid
      have hkeep : s.scopes[other.index].entries.filter keep = s.scopes[other.index].entries := by
        refine List.filter_eq_self.mpr ?_
        intro entry hentry
        by_cases hk : keep entry = true
        · exact hk
        · have hin : entry ∈ s.entries other := by rw [Store.entries, hscope]; exact hentry
          exact absurd (allowed entry hin (by simpa using hk)) (hd _)
      rw [hscope, Option.map_some, hkeep]
    · rfl
  | _ => exact .of_scopeAt?_eq rfl

/-- After any number of steps a scope has what it had, and perhaps more behind it. -/
theorem Changes.extends (h : Changes π s s') (hid : s.Has (.scope id))
    (hd : ∀ name, ¬ π.drops id name) : s.Extends (π.Declares id) id s' := by
  induction h with
  | refl => exact .of_scopeAt?_eq rfl
  | tail hs hc ih => exact ih.trans (hc.extends (Changes.has hs hid) hd)

end Scriptlet
