import Scriptlet.Proofs.Session.History

/-!
# Evaluation never gets stuck

Whatever a host does with a session, no step of it ends in a fault that speaks of a tree or function
which the grammar does not give, and no reference leads nowhere: neither in the store that a step
leaves behind, nor in any that it passes through, nor among the values that the host holds.
-/

namespace Scriptlet.Session

/-- What a host and its session can refer to: the scopes of the session and the values held. -/
def State.roots (st : State) : List Ref :=
  [.scope globalScope, .scope standardScope, .scope mainScope] ++ st.held.flatMap Value.refs

theorem State.Sound.has_root {st : State} (h : st.Sound) {r : Ref} (hr : r ∈ st.roots) :
    st.machine.store.Has r := by
  have grown : 3 ≤ st.machine.store.scopes.size := h.store.grown
  rcases List.mem_append.mp hr with hr | hr
  · have scopes : ∀ id : ScopeId, id.index < 3 → st.machine.store.Has (.scope id) :=
      fun id hid => Nat.lt_of_lt_of_le hid grown
    simp only [List.mem_cons, List.not_mem_nil, or_false] at hr
    rcases hr with rfl | rfl | rfl
    · exact scopes globalScope (by decide)
    · exact scopes standardScope (by decide)
    · exact scopes mainScope (by decide)
  · obtain ⟨v, hv, hr⟩ := List.mem_flatMap.mp hr
    exact h.held v hv r hr

/-- A fault that may occur is none of those that the evaluator keeps for trees and functions that
nobody can make. -/
theorem ne_of_admits {f : Fault} (h : permit.Admits f) :
    f.kind ≠ .unsupported ∧ (∀ text, f ≠ .notOneCharacter text) ∧
      (∀ name, f ≠ .restBeforeLast name) ∧ ∀ name, f ≠ .uncallableFunction name := by
  have hf := h trivial
  cases f <;> simp [Fault.isInternal, Fault.kind] at hf ⊢

/-- For every sequence of steps on a new session and every next step: the step fails, if it does,
with a fault of the language or an exhausted limit; all the stores that it passes through are
closed; and all that the host and the session can reach in the end is there. -/
theorem never_stuck (tracing : Bool) (history : List (Nat × Step)) (limit : Nat) (step : Step) :
    let before := play tracing history
    let (fault, after) := before.perform limit step
    (∀ f ∈ fault, f.kind ≠ .unsupported ∧ (∀ text, f ≠ .notOneCharacter text) ∧
        (∀ name, f ≠ .restBeforeLast name) ∧ ∀ name, f ≠ .uncallableFunction name) ∧
      Changes.Within permit Store.Closed before.machine.store after.machine.store ∧
      after.machine.store.Closed ∧
      ∀ r ∈ after.roots, ∀ r', after.machine.store.Leads r r' → after.machine.store.Has r' := by
  have hbefore := (play_spec tracing history).1
  obtain ⟨hchanges, hfault⟩ := hbefore.perform limit step
  have hafter := hbefore.after limit step
  obtain ⟨hwithin, hclosed⟩ := hchanges.within Change.closed hbefore.store.closed
  refine ⟨fun f hf => ne_of_admits (hfault f hf), hwithin, hclosed, ?_⟩
  intro r hr r' hleads
  exact hclosed.has_of_leads (hafter.has_root hr) hleads

end Scriptlet.Session
