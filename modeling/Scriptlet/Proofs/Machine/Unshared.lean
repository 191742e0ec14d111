import Scriptlet.Proofs.Machine.Upkeep

/-!
# Names do not share variables

A variable is declared once, where it was made, and nothing ever declares it again. So two names
never stand for one variable, nor does one name in two scopes (`Store.Unshared`), and an assignment
to the one leaves what the other gives.

Until it is declared, a new variable is in the table of no scope (`Store.Undeclared`). Between the
two nothing happens, so this has not to be kept up.
-/

namespace Scriptlet

namespace Store

/-- No variable is declared under two names or in two scopes. -/
structure Unshared (s : Store) : Prop where
  there : ∀ {scope name id}, (name, Entity.var id) ∈ s.entries scope → s.Has (.var id)
  once : ∀ {id scope name scope' name'}, (name, Entity.var id) ∈ s.entries scope →
    (name', Entity.var id) ∈ s.entries scope' → scope = scope' ∧ name = name'

/-- If the entity is a variable, it is one that no scope declares. -/
def Undeclared (e : Entity) (s : Store) : Prop :=
  ∀ id, e = .var id → s.Has (.var id) ∧ ∀ scope name, (name, Entity.var id) ∉ s.entries scope

variable {s s' : Store} {scope other : ScopeId} {entry : String × Entity}

/-- What a table has after a change is what the change made of it, or it was there before. -/
theorem mem_entries_modifyEntries {f : Table Entity → Table Entity}
    (h : entry ∈ (s.modifyEntries scope f).entries other) :
    entry ∈ s.entries other ∨ other = scope ∧ entry ∈ f (s.entries scope) := by
  by_cases he : scope = other
  · subst he
    refine Or.inr ⟨rfl, ?_⟩
    rw [entries, scopeAt?_modifyEntries, if_pos rfl] at h
    rw [entries]
    cases hs : s.scopeAt? scope with
    | none =>
      rw [hs] at h
      cases h
    | some c =>
      rw [hs] at h
      exact h
  · rw [entries_modifyEntries_of_ne s he] at h
    exact Or.inl h

theorem mem_entries_bind {name : String} {e : Entity}
    (h : entry ∈ (s.bind scope name e).entries other) :
    entry ∈ s.entries other ∨ other = scope ∧ entry = (name, e) := by
  rcases mem_entries_modifyEntries h with h | ⟨rfl, h⟩
  · exact Or.inl h
  · rcases List.mem_append.mp h with h | h
    · exact Or.inl h
    · exact Or.inr ⟨rfl, List.mem_singleton.mp h⟩

theorem mem_entries_filter {keep : String × Entity → Bool}
    (h : entry ∈ (s.modifyEntries scope (·.filter keep)).entries other) :
    entry ∈ s.entries other := by
  rcases mem_entries_modifyEntries h with h | ⟨rfl, h⟩
  · exact h
  · exact (List.mem_filter.mp h).1

theorem mem_entries_addScope {owner : String} {parent : Option ScopeId}
    (h : entry ∈ (s.addScope owner parent).2.entries scope) : entry ∈ s.entries scope := by
  rw [entries, scopeAt?_addScope] at h
  split at h
  · cases h
  · exact h

namespace Unshared

/-- Names that are gone do no harm. -/
theorem mono (h : s.Unshared) (hentries : ∀ scope, ∀ entry ∈ s'.entries scope,
    entry ∈ s.entries scope) (hsize : s.vars.size ≤ s'.vars.size) : s'.Unshared where
  there hentry := Nat.lt_of_lt_of_le (h.there (hentries _ _ hentry)) hsize
  once hentry hentry' := h.once (hentries _ _ hentry) (hentries _ _ hentry')

/-- A variable that no scope declares may be declared. -/
theorem bind (h : s.Unshared) {name : String} {e : Entity} (he : s.Undeclared e) :
    (s.bind scope name e).Unshared where
  there hentry := by
    rcases mem_entries_bind hentry with hold | ⟨-, hnew⟩
    · exact h.there hold
    · obtain ⟨-, rfl⟩ := Prod.mk.inj hnew
      exact (he _ rfl).1
  once hentry hentry' := by
    rcases mem_entries_bind hentry with hold | ⟨rfl, hnew⟩
    · rcases mem_entries_bind hentry' with hold' | ⟨rfl, hnew'⟩
      · exact h.once hold hold'
      · obtain ⟨-, rfl⟩ := Prod.mk.inj hnew'
        exact absurd hold ((he _ rfl).2 _ _)
    · obtain ⟨rfl, rfl⟩ := Prod.mk.inj hnew
      rcases mem_entries_bind hentry' with hold' | ⟨rfl, hnew'⟩
      · exact absurd hold' ((he _ rfl).2 _ _)
      · obtain ⟨rfl, -⟩ := Prod.mk.inj hnew'
        exact ⟨rfl, rfl⟩

/-- A new variable is in no table. -/
theorem undeclared_addVariable (h : s.Unshared) (x : Variable) :
    (s.addVariable x).2.Undeclared (.var (s.addVariable x).1) := by
  rintro _ ⟨⟩
  refine ⟨?_, ?_⟩
  · show s.vars.size < (s.vars.push x).size
    rw [Array.size_push]
    exact Nat.lt_succ_self _
  · intro scope name hentry
    exact Nat.lt_irrefl _ (h.there hentry)

end Unshared

/-- Nothing that evaluation does to a store makes two names share a variable. -/
theorem upkeep_unshared : Upkeep Unshared Undeclared where
  addScope _ _ h := h.mono (fun _ _ => mem_entries_addScope) (Nat.le_refl _)
  addVariable x h := h.mono (fun _ _ hentry => hentry) (by simp [addVariable])
  addObject _ _ h := ⟨h.there, h.once⟩
  addArray _ h := ⟨h.there, h.once⟩
  addBox h := ⟨h.there, h.once⟩
  newVariable x h := h.undeclared_addVariable x
  newFunction _ _ _ he := by cases he
  newModule _ _ _ he := by cases he
  bind _ _ _ he h := h.bind he
  drop _ _ h := h.mono (fun _ _ => mem_entries_filter) (Nat.le_refl _)
  setVariable _ _ h := h.mono (fun _ _ hentry => hentry) (by simp [setVariable])
  setProperty _ _ _ h := ⟨h.there, h.once⟩
  setPrototype _ _ h := ⟨h.there, h.once⟩
  pushElement _ _ h := ⟨h.there, h.once⟩

end Store

end Scriptlet
