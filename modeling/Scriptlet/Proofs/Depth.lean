import Mathlib.Data.Set.Finite.Basic
import Mathlib.Order.Filter.AtTopBot.Basic
import Mathlib.Order.Filter.Finite

/-!
# From some depth on

Reading, writing and evaluating count down a nesting depth. What they do with a tree, they do at
every depth from some depth on: `∀ᶠ depth in atTop, …`. Parts of a tree may need different depths;
a finite number of them is served by one that is large enough for all.
-/

namespace Scriptlet

open Filter

theorem eventually_of_add {p : Nat → Prop} (k : Nat) (h : ∀ᶠ depth in atTop, p (depth + k)) :
    ∀ᶠ depth in atTop, p depth := by
  rw [← map_add_atTop_eq_nat k, eventually_map]
  exact h

theorem eventually_forall_mem {ι : Type} {xs : List ι} {p : ι → Nat → Prop}
    (h : ∀ x ∈ xs, ∀ᶠ depth in atTop, p x depth) : ∀ᶠ depth in atTop, ∀ x ∈ xs, p x depth :=
  (eventually_all_finite xs.finite_toSet).mpr h

end Scriptlet
