import Scriptlet.Proofs.Grammar.Join
import Scriptlet.Proofs.Session.Layout
import Scriptlet.Proofs.Session.Streaming

/-!
# Loading two texts as one

Two texts that can be read are loaded as one, with a newline between them, as they are loaded one
after the other (`load_joined`). Reading them as one gives the declarations of both
(`Grammar.program_joined`), and loading is declaring what was read (`load_eq_declarations`). Only
lines can differ, as the second text stands further down.
-/

namespace Scriptlet.Session

open Eval

theorem declarations_append (entity : Node → ScopeId → Eval Entity) (scope : ScopeId)
    (later : List Node) : ∀ nodes : List Node, declarations entity scope (nodes ++ later) =
      (do declarations entity scope nodes; declarations entity scope later)
  | [] => by simp [declarations]
  | node :: nodes => by simp [declarations, declarations_append entity scope later nodes]

/-- Declaring does not depend on lines. -/
theorem declarations_alike (limit : Nat) {nodes nodes' : List Node}
    (h : nodes.map Node.unlined = nodes'.map Node.unlined) :
    Alike (declarations (entity limit) mainScope nodes)
      (declarations (entity limit) mainScope nodes') := by
  have hblind := declarations_blind (evaluatorsBlind limit).entity mainScope
  have himage := hblind nodes'
  rw [← h] at himage
  exact .of_mirrors (hblind nodes) himage

/-- Two actions that come to the same cannot be told apart from outside. -/
theorem sameOutcome_of_alike {act act' : Eval Unit} (h : Alike act act') (m : Machine) :
    SameOutcome (act m) (act' m) := by
  rcases Erasure.cases_of_outcome_eq (h.outcome_eq m m rfl) with
    ⟨_, n, _, n', hr, hr', -, hn⟩ | ⟨f, n, g, n', hr, hr', hf, hn⟩
  · rw [hr, hr']
    exact .success (output_eq_of_unlined_eq hn) hn
  · rw [hr, hr']
    exact .failure (output_eq_of_unlined_eq hn) hn (Fault.saysSame_of_unplaced_eq hf)

/-- A text that can be read is loaded by declaring what it holds. -/
theorem load_of_read {limit : Nat} {source : String}
    (h : (Grammar.program limit source).2 = none) :
    load limit source = declarations (entity limit) mainScope (Grammar.program limit source).1 := by
  rw [load_eq_declarations, h]
  exact bind_pure _

/-- Two texts that can be read can be read with a newline between them. They then give the
declarations of the one and those of the other, and loading them as one comes to the same as loading
the one and, if that succeeds, the other. Lines may differ. -/
theorem load_joined (limit : Nat) (source source' : String)
    (h : (Grammar.program limit source).2 = none) (h' : (Grammar.program limit source').2 = none) :
    (Grammar.program limit (source ++ "\n" ++ source')).2 = none ∧
      (Grammar.program limit (source ++ "\n" ++ source')).1.map Node.unlined =
        ((Grammar.program limit source).1 ++ (Grammar.program limit source').1).map Node.unlined ∧
      ∀ m, SameOutcome (load limit (source ++ "\n" ++ source') m)
        ((do load limit source; load limit source') m) := by
  obtain ⟨nodes, hjoined, hnodes⟩ := Grammar.program_joined h h'
  have hread : (Grammar.program limit (source ++ "\n" ++ source')).2 = none := by rw [hjoined]
  refine ⟨hread, ?_, ?_⟩
  · rw [hjoined, List.map_append, List.map_append, hnodes]
  · intro m
    have hsame : Alike (declarations (entity limit) mainScope (Grammar.program limit source).1)
        (declarations (entity limit) mainScope (Grammar.program limit source).1) :=
      declarations_alike limit rfl
    have hload := hsame.bind fun _ => declarations_alike limit hnodes
    rw [load_of_read hread, load_of_read h, load_of_read h', hjoined, declarations_append]
    exact sameOutcome_of_alike hload m

/-- A declaration without a semicolon and with a comment behind it, and one that uses it. -/
theorem load_joined_after_comment :
    let first := "const a = -1 // one"
    let second := "fn f() = a"
    (Grammar.program 9 first).2 = none ∧ (Grammar.program 9 second).2 = none ∧
      (Grammar.program 9 (first ++ "\n" ++ second)).2 = none ∧
      SameOutcome (load 9 (first ++ "\n" ++ second) (start false))
        ((do load 9 first; load 9 second) (start false)) := by
  intro first second
  have hfirst : (Grammar.program 9 first).2 = none := by
    dsimp only [first]
    cbv
  have hsecond : (Grammar.program 9 second).2 = none := by
    dsimp only [second]
    cbv
  obtain ⟨hread, -, hload⟩ := load_joined 9 first second hfirst hsecond
  exact ⟨hfirst, hsecond, hread, hload (start false)⟩

end Scriptlet.Session
