import Scriptlet.Proofs.Session.History
import Scriptlet.Proofs.Store.Walk

/-!
# Prototypes never run in circles

The objects of a new session have no prototypes, and no step of evaluation closes a circle. So the
chains of prototypes end in every store that a session comes to, between two steps as well as in the
middle of one: looking up a property, asking whether there is one, checking a new prototype and
telling instances apart all follow such a chain.
-/

namespace Scriptlet.Session

theorem ordered_firstStore : firstStore.Ordered where
  closed := closed_firstStore
  acyclic := by
    intro id
    refine ⟨[id], .stop ?_⟩
    cases ho : firstStore.objectAt? id with
    | none => rw [Store.prototype?, ho, Option.bind_none]
    | some o =>
      obtain ⟨name, action, arity, rfl⟩ := native_of_objectAt? ho
      rw [Store.prototype?, ho, Option.bind_some]
  inhabited := by decide

/-- After every sequence of steps on a new session all chains of prototypes end, and they end in
every store that the next step passes through, whether it succeeds or fails. -/
theorem prototype_chains_end (tracing : Bool) (history : List (Nat × Step)) :
    let before := play tracing history
    before.machine.store.ChainsEnd ∧
      ∀ limit step, Changes.Within permit Store.ChainsEnd before.machine.store
        (before.perform limit step).2.machine.store := by
  obtain ⟨hsound, hchanges⟩ := play_spec tracing history
  have hordered := hchanges.keeps Change.ordered ordered_firstStore
  refine ⟨hordered.chainsEnd, ?_⟩
  intro limit step
  have hwithin := ((hsound.perform limit step).1.within Change.ordered hordered).1
  exact hwithin.imp fun s hs => hs.chainsEnd

end Scriptlet.Session
