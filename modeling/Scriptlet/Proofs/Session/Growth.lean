import Scriptlet.Proofs.Machine.Distinct
import Scriptlet.Proofs.Session.Upkeep

/-!
# Composite values only grow

An array has its elements for ever, each in its place, and an object its keys; new ones come behind
the old ones. A property keeps its flags, and its value too if it may not be written. No object has
a key twice. An assignment to a member looks at the property before it evaluates the new value, and
writes it after that; in between, anything may have been done to the object. So this is said of
whole evaluations, not of single writes.
-/

namespace Scriptlet

/-- Arrays and objects have what they had, keys are distinct, and what an array gives for an index
in range, it gives for ever. -/
structure Store.Matures (s s' : Store) : Prop where
  grows : s.Grows s'
  distinct : s'.Distinct
  inRange : ∀ id (index : Int), s.Has (.array id) → index < (s.elements id).size →
    index < (s'.elements id).size ∧ s'.elementAt id index = s.elementAt id index

theorem Store.Grows.matures {s s' : Store} (h : s.Grows s') (hd : s'.Distinct) : s.Matures s' where
  grows := h
  distinct := hd
  inRange id index hid hlt := by
    refine ⟨?_, h.elementAt_eq hid hlt⟩
    have hlength := (h.elements id hid).length_le
    rw [Array.length_toList, Array.length_toList] at hlength
    omega

namespace Session

open Eval

/-! ## Keys are distinct in every session -/

theorem distinct_firstStore : firstStore.Distinct := by
  intro id
  cases ho : firstStore.objectAt? id with
  | none =>
    rw [Store.properties, ho]
    exact List.nodup_nil
  | some o =>
    obtain ⟨name, action, arity, rfl⟩ := native_of_objectAt? ho
    rw [Store.properties, ho]
    exact List.nodup_nil

theorem play_distinct (tracing : Bool) (history : List (Nat × Step)) :
    (play tracing history).machine.store.Distinct :=
  play_upholds Store.upkeep_distinct distinct_firstStore tracing history

/-! ## Growth -/

/-- For every sequence of steps on a new session and all that may follow, arrays and objects have
what they had, and perhaps more behind it, and no object has a key twice. Within a step, so it is
whatever is evaluated or called in whatever closed store with distinct keys, such as that of the
session, and however it ends. -/
theorem composites_only_grow (tracing : Bool) (history future : List (Nat × Step)) :
    let s := (play tracing history).machine.store
    s.Closed ∧ s.Distinct ∧ s.Matures (play tracing (history ++ future)).machine.store ∧
      ∀ m : Machine, m.store.Closed → m.store.Distinct → ∀ depth,
        (∀ node scope, m.store.Has (.scope scope) → ∀ m' ∈ finals depth node scope m,
          m.store.Matures m'.store) ∧
        ∀ id args, m.store.Has (.object id) → (∀ v ∈ args, m.store.Holds v) →
          m.store.Matures (final (invoke depth id args) m).store := by
  have hsound := (play_spec tracing history).1
  refine ⟨hsound.store.closed, play_distinct tracing history, ?_, ?_⟩
  · have hchanges := (hsound.steps future).2
    rw [← play_append] at hchanges
    exact hchanges.grows.matures (play_distinct tracing _)
  · intro m hclosed hdistinct depth
    refine ⟨?_, ?_⟩
    · intro node scope hscope m' hm'
      exact (changes_of_mem_finals hclosed hscope hm').grows.matures
        (upheld_of_mem_finals Store.upkeep_distinct hdistinct hm')
    · intro id args hid held
      exact (changes_invoke mainScope hclosed depth hid held).grows.matures
        (((evaluatorsUphold Store.upkeep_distinct depth).invoke id args).final hdistinct)

/-- A program is handed an object with a read-only property, pushes an element to an array and
writes to the property: the array begins as it did, and the property is what it was. -/
theorem composites_after_call :
    let history : List (Nat × Step) := [(9, .primitive (.int 5)),
      (9, .object [⟨"x", 0, false, "public", false⟩] none), (9, .execute "const xs = [7];")]
    let future : List (Nat × Step) :=
      [(9, .load "fn f(o) \x7b std::push(xs, 8); o.x = 6; return o; \x7d"), (9, .call "f" [1])]
    let s := (play false history).machine.store
    let s' := (play false (history ++ future)).machine.store
    s.Has (.array ⟨0⟩) ∧ s.elementAt ⟨0⟩ 0 = .int 7 ∧ s'.elementAt ⟨0⟩ 0 = .int 7 ∧
      (s.properties ⟨8⟩).get? "x" = some ⟨.primitive (.int 5) 1, false, "public", false⟩ ∧
      (s'.properties ⟨8⟩).get? "x" = some ⟨.primitive (.int 5) 1, false, "public", false⟩ := by
  intro history future s s'
  have helements : s.elements ⟨0⟩ = #[.int 7] := by
    dsimp only [s, history]
    cbv
  have hx : (s.properties ⟨8⟩).get? "x" =
      some ⟨.primitive (.int 5) 1, false, "public", false⟩ := by
    dsimp only [s, history]
    cbv
  have hthere : s.Has (.array ⟨0⟩) := by
    have hsize : s.arrays.size = 1 := by
      dsimp only [s, history]
      cbv
    show 0 < s.arrays.size
    rw [hsize]
    exact Nat.one_pos
  have hseven : s.elementAt ⟨0⟩ 0 = .int 7 := by simp [Store.elementAt, helements]
  have hmatures := (composites_only_grow false history future).2.2.1
  refine ⟨hthere, hseven, ?_, hx, ?_⟩
  · rw [(hmatures.inRange ⟨0⟩ 0 hthere (by rw [helements]; decide)).2, hseven]
  · obtain ⟨p', hp', -, hfixed⟩ := hmatures.grows.properties ⟨8⟩ "x" _ hx
    rw [hp', hfixed rfl]

end Session

end Scriptlet
