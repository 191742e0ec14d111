import Scriptlet.Proofs.Session.History
import Scriptlet.Proofs.Store.Containment

/-!
# Which values have a text

A value that contains itself has no text, and neither has one with an integer that cannot be
written. Every other value has one, if only the stack is deep enough for it. This holds in every
store that a session comes to (`texts_of_shallow_data`), as functions in name only, the one thing
that has no text for a reason of its own, do not occur there.

How deep a stack has to be is not said. On one that is too shallow, data that ends may overflow
(`no_text_of_deep_data`); but it has no other text there, and what has no text has none on any
stack.
-/

namespace Scriptlet

open Filter

/-- Which values have a text, and what becomes of the others. -/
structure Store.TextsKnown (s : Store) : Prop where
  /-- On a stack that is deep enough, the values with a text are those that one cannot go into for
  ever and that have no integer with too many digits in them. -/
  text_iff : ∀ v, (∃ text, s.HasText v text) ↔ ¬ s.Endless v ∧ s.Legible v
  /-- On any other stack, such a value has the same text or overflows. -/
  text_or_overflow : ∀ v text levels, s.HasText v text →
    s.format levels v = .ok text ∨ s.format levels v = .error .overflow
  /-- All other values fail on every stack: they overflow, or there is an integer that cannot be
  written. -/
  fault : ∀ v levels, s.Endless v ∨ ¬ s.Legible v → s.format levels v = .error .overflow ∨
    s.format levels v = .error .digitsToText ∧ ¬ s.Legible v
  /-- If one cannot go into them for ever, it is the integer, on a stack that is deep enough. -/
  digits : ∀ v, ¬ s.Endless v → ¬ s.Legible v →
    ∀ᶠ levels in atTop, s.format levels v = .error .digitsToText
  /-- Prototypes do not matter. -/
  prototypes : ∀ id prototype levels v,
    (s.setPrototype id prototype).format levels v = s.format levels v
  /-- Properties of functions do not matter. -/
  functions : ∀ id name p levels v, (s.function? id).isSome = true →
    (s.setProperty id name p).format levels v = s.format levels v

theorem Store.Coded.textsKnown {s : Store} (hs : s.Coded) : s.TextsKnown where
  text_iff _ := exists_hasText_iff hs
  text_or_overflow _ _ levels h := h.eq_or_overflow levels
  fault _ levels h := format_of_endless_or hs h levels
  digits _ := eventually_digitsToText hs
  prototypes id prototype levels v := (s.sameData_setPrototype id prototype).format_eq levels v
  functions _ name p levels v hf := (sameData_setProperty hf name p).format_eq levels v

namespace Session

/-- After every sequence of steps on a new session, and in every store that the next step passes
through, whether it succeeds or fails: on a stack that is deep enough, the values with a text are
those without an endless way inward whose integers can be written, and the others fail on every
stack. -/
theorem texts_of_shallow_data (tracing : Bool) (history : List (Nat × Step)) :
    let before := play tracing history
    before.machine.store.TextsKnown ∧
      ∀ limit step, Changes.Within permit Store.TextsKnown before.machine.store
        (before.perform limit step).2.machine.store := by
  obtain ⟨hsound, -⟩ := play_spec tracing history
  have hcoded := hsound.store.coded trivial
  refine ⟨hcoded.textsKnown, ?_⟩
  intro limit step
  have hwithin := ((hsound.perform limit step).1.within (fun hc => hc.coded trivial) hcoded).1
  exact hwithin.imp fun s hs => hs.textsKnown

/-! ## Arrays in arrays -/

/-- The place of the array that the one at a place holds. -/
def below : Nat → List Nat
  | 0 => []
  | k + 1 => [k]

/-- A host that builds so many arrays, each with the one before it as its only element. -/
def stacking (n : Nat) : List (Nat × Step) := (List.range n).map fun k => (0, .array (below k))

/-- The arrays of such a host. -/
structure Stacked (n : Nat) (st : State) : Prop where
  held : st.held = (List.range n).map fun k => .array ⟨k⟩
  size : st.machine.store.arrays.size = n
  contents : ∀ k < n, st.machine.store.contents (.array ⟨k⟩) = (below k).map fun j => .array ⟨j⟩

theorem Stacked.perform {n : Nat} {st : State} (h : Stacked n st) :
    Stacked (n + 1) (st.perform 0 (.array (below n))).2 := by
  have hpicked : (below n).map (pick st.held) = (below n).map fun j => .array ⟨j⟩ := by
    cases n with
    | zero => rfl
    | succ k => simp [below, pick, h.held]
  refine ⟨?_, ?_, ?_⟩
  · show st.held ++ [Value.array ⟨st.machine.store.arrays.size⟩] = _
    rw [h.held, h.size, List.range_succ, List.map_append]
    rfl
  · show (st.machine.store.arrays.push _).size = n + 1
    rw [Array.size_push, h.size]
  · intro k hk
    show ((st.machine.store.addArray
      ((below n).map (pick st.held)).toArray).2.elements ⟨k⟩).toList = _
    rw [Store.elements_addArray, h.size, hpicked]
    by_cases hkn : k = n
    · simp [hkn]
    · rw [if_neg hkn]
      exact h.contents k (by omega)

theorem stacked : ∀ n, Stacked n (play false (stacking n))
  | 0 => ⟨rfl, rfl, nofun⟩
  | n + 1 => by
    have hstacking : stacking (n + 1) = stacking n ++ [(0, .array (below n))] := by
      rw [stacking, List.range_succ, List.map_append]
      rfl
    rw [hstacking, play_append]
    exact (stacked n).perform

/-- From an array one can go inward through all arrays below it, and no further. -/
theorem Stacked.hasPath_iff {n : Nat} {st : State} (h : Stacked n st) :
    ∀ (levels k : Nat), k < n → (st.machine.store.HasPath levels (.array ⟨k⟩) ↔ levels ≤ k)
  | 0, k, _ => by simp [Store.HasPath]
  | levels + 1, k, hk => by
    rw [Store.HasPath, h.contents k hk]
    cases k with
    | zero => simp [below]
    | succ j =>
      have hj := h.hasPath_iff levels j (by omega)
      simp [below, hj]

theorem Stacked.legible {n : Nat} {st : State} (h : Stacked n st) :
    ∀ k < n, st.machine.store.Legible (.array ⟨k⟩)
  | 0, hk => by
    rw [Store.legible_iff, h.contents 0 hk]
    exact ⟨trivial, by simp [below]⟩
  | k + 1, hk => by
    rw [Store.legible_iff, h.contents (k + 1) hk]
    refine ⟨trivial, ?_⟩
    simpa [below] using h.legible k (by omega)

/-- Twenty thousand levels are not enough for one array more than that, each inside the next,
although the innermost one is empty. -/
theorem no_text_of_deep_data :
    let s := (play false (stacking 20001)).machine.store
    ¬ s.Endless (.array ⟨20000⟩) ∧ s.Legible (.array ⟨20000⟩) ∧
      ∀ levels ≤ 20000, s.format levels (.array ⟨20000⟩) = .error .overflow := by
  have hstacked := stacked 20001
  have hcoded := (play_spec false (stacking 20001)).1.store.coded trivial
  generalize (play false (stacking 20001)) = st at hstacked hcoded
  have hlegible := hstacked.legible 20000 (by omega)
  refine ⟨?_, hlegible, ?_⟩
  · intro hendless
    have := (hstacked.hasPath_iff 20001 20000 (by omega)).mp (hendless.hasPath 20001)
    omega
  · intro levels hlevels
    cases levels with
    | zero => rfl
    | succ levels =>
      have hdeep := (hstacked.hasPath_iff (levels + 1) 20000 (by omega)).mpr hlevels
      exact Store.format_eq_overflow hcoded hdeep hlegible

end Session

end Scriptlet
