import Mathlib
import Scriptlet.Proofs.Session.History
import Scriptlet.Proofs.Store.Frame

/-!
# Evaluation declares in the active scope only

Calls, branches and modules have scopes of their own, in which their names go. So whatever tree is
evaluated in a scope, names are added to that scope at most, and no scope that was there before
loses, replaces or moves a name. An expression of the grammar does not even add one.
-/

namespace Scriptlet

namespace Eval

variable {α : Type}

/-- The machine that an action leaves behind, whether it fails or not. -/
def final (act : Eval α) (m : Machine) : Machine :=
  match act m with
  | .ok _ m' => m'
  | .error _ m' => m'

/-- The machines that the four evaluators of trees leave behind. -/
def finals (depth : Nat) (node : Node) (scope : ScopeId) (m : Machine) : List Machine :=
  [final (value depth node scope) m, final (entity depth node scope) m,
    final (control depth node scope) m, final (instruction depth node scope) m]

theorem Does.changes_final {π : Permit} {m : Machine} {act : Eval α} {P : α → Store → Prop}
    (h : Does π m act P) (hs : m.store.Sound π) : Changes π m.store (final act m).store := by
  have hobeys := h hs
  unfold final
  cases hr : act m with
  | ok a m' => exact (hobeys.of_ok hr).1
  | error f m' => exact (hobeys.of_error hr).1

/-- An evaluator that is asked for an expression of the grammar declares nothing, whichever it is:
there is nothing to declare, nothing to steer, and an instruction is just evaluated. -/
theorem evaluators_do_expression (π : Permit) (depth : Nat) {node : Node} {scope : ScopeId}
    {m : Machine} (hπ : ¬ π.strict) (there : m.store.Has (.scope scope))
    (hf : node.Fits True .expression) :
    Does π m (value depth node scope) (fun v s => s.Holds v) ∧
      Does π m (entity depth node scope) (fun _ _ => True) ∧
      Does π m (control depth node scope) (fun _ _ => True) ∧
      Does π m (instruction depth node scope) fun _ _ => True := by
  have admitted : ∀ f, π.Admits f := fun f h => absurd h hπ
  have evaluated : ∀ depth, Does π m (value depth node scope) fun v s => s.Holds v :=
    fun depth => (evaluatorsDo π depth).value node scope m there
      (.of_expression (fun h => absurd h hπ) (Or.inr hf))
  refine ⟨evaluated depth, ?_⟩
  cases depth with
  | zero => exact ⟨Does.throw (admitted _), Does.throw (admitted _), Does.throw (admitted _)⟩
  | succ depth =>
    refine ⟨?_, ?_, ?_⟩
    · cases hf <;> exact Does.throw (admitted _)
    · cases hf <;> exact Does.note _
    · show Does π m (instructionOf _ _ _ _ _) _
      rw [instructionOf, hf.family_expression]
      exact Does.bind (evaluated depth) fun _ _ _ _ => Does.pure trivial

end Eval

/-- The permit of an evaluation in a scope of a store: names may be declared in it if it is `open`,
and in the scopes that are not there yet. -/
def Permit.inScope (s : Store) (scope : ScopeId) (isOpen : Prop) : Permit where
  base := s.scopes.size
  declares id _ := id = scope ∧ isOpen
  drops _ _ := False
  strict := False

/-- Of the scopes that were there, at most the one had names added to it. -/
def Store.DeclaresIn (scope : ScopeId) (s s' : Store) : Prop :=
  ∀ id, s.Has (.scope id) → s'.owner id = s.owner id ∧ s'.parent? id = s.parent? id ∧
    (id ≠ scope → s'.entries id = s.entries id) ∧
    ∃ added : Table Entity, s'.entries id = s.entries id ++ added ∧ added.keys.Nodup ∧
      ∀ name ∈ added.keys, name ∉ (s.entries id).keys

section

variable {s s' : Store} {scope : ScopeId} {isOpen : Prop}

theorem Store.Closed.sound_inScope (hc : s.Closed) : s.Sound (.inScope s scope isOpen) where
  closed := hc
  coded := False.elim
  grown := Nat.le_refl _

/-- Whatever tree is evaluated in a scope of a closed store, names may be declared in that scope. -/
theorem Eval.changes_of_mem_finals {m m' : Machine} (hc : m.store.Closed) {depth : Nat}
    {node : Node} (hscope : m.store.Has (.scope scope)) (hm' : m' ∈ finals depth node scope m) :
    Changes (.inScope m.store scope True) m.store m'.store := by
  let π := Permit.inScope m.store scope True
  have hsound : m.store.Sound π := hc.sound_inScope
  have opens : π.Opens scope := fun _ => Or.inr ⟨rfl, trivial⟩
  have lax : ∀ {P : Prop}, π.strict → P := False.elim
  have hdo := evaluatorsDo π depth
  simp only [finals, List.mem_cons, List.not_mem_nil, or_false] at hm'
  rcases hm' with rfl | rfl | rfl | rfl
  · exact (hdo.value node scope m hscope ⟨lax, lax, Or.inl opens⟩).changes_final hsound
  · exact (hdo.entity node scope m hscope lax opens).changes_final hsound
  · exact (hdo.control node scope m hscope lax opens).changes_final hsound
  · exact (hdo.instruction node scope m hscope lax opens).changes_final hsound

/-- Whatever is called in a closed store, names are declared in none of its scopes. -/
theorem Eval.changes_invoke {m : Machine} (scope : ScopeId) (hc : m.store.Closed) (depth : Nat)
    {id : ObjectId} {args : List Value} (hid : m.store.Has (.object id))
    (held : ∀ v ∈ args, m.store.Holds v) :
    Changes (.inScope m.store scope False) m.store (final (invoke depth id args) m).store :=
  ((evaluatorsDo _ depth).invoke id args m hid held).changes_final hc.sound_inScope

theorem not_declares_inScope {id : ScopeId} (hid : s.Has (.scope id))
    (h : ¬ (id = scope ∧ isOpen)) (name : String) :
    ¬ (Permit.inScope s scope isOpen).Declares id name := by
  rintro (hbase | hopen)
  · exact Nat.lt_irrefl _ (Nat.lt_of_lt_of_le hid hbase)
  · exact h hopen

theorem Changes.declaresIn (h : Changes (.inScope s scope isOpen) s s') :
    s.DeclaresIn scope s' := by
  intro id hid
  have hext := h.extends hid fun _ hd => hd
  refine ⟨hext.owner, hext.parent, ?_, ?_⟩
  · intro hne
    exact hext.entries_eq (not_declares_inScope hid fun ho => hne ho.1)
  · obtain ⟨added, hadded, hnodup, hnew⟩ := hext.entries
    exact ⟨added, hadded, hnodup, fun name hname => (hnew name hname).2⟩

theorem Changes.entries_eq_inScope (h : Changes (.inScope s scope False) s s')
    (hscope : s.Has (.scope scope)) : s'.entries scope = s.entries scope :=
  (h.extends hscope fun _ hd => hd).entries_eq
    (not_declares_inScope hscope fun ho => ho.2)

end

namespace Session

open Eval

/-- For every state that a session comes to, every scope of it and every tree: whichever evaluator
is given the tree, and however it ends, names are added to that scope at most. If the tree is an
expression that was read from a source text, none are added. -/
theorem declares_in_active_scope (tracing : Bool) (history : List (Nat × Step)) (scope : ScopeId)
    (hscope : (play tracing history).machine.store.Has (.scope scope)) (depth : Nat) :
    let m := (play tracing history).machine
    (∀ node, ∀ m' ∈ finals depth node scope m, m.store.DeclaresIn scope m'.store) ∧
      ∀ source limit stream node rest, Stream.Before (Stream.ofSource source) stream →
        Grammar.expression limit stream = .ok node rest → ∀ n ∈ [node, node.unlined],
        ∀ m' ∈ finals depth n scope m, m'.store.entries scope = m.store.entries scope := by
  have hclosed := (play_spec tracing history).1.store.closed
  intro m
  constructor
  · intro node m' hm'
    exact (changes_of_mem_finals hclosed hscope hm').declaresIn
  · intro source limit stream node rest hbefore hread n hn m' hm'
    let π := Permit.inScope m.store scope False
    have hsound : m.store.Sound π := hclosed.sound_inScope
    have hstream := (Stream.sound_ofSource source).before hbefore
    have hnode := (((Grammar.readersFit limit).expression stream hstream).of_ok hread).2
    have hfits : n.Fits True .expression := by
      simp only [List.mem_cons, List.not_mem_nil, or_false] at hn
      rcases hn with rfl | rfl
      · exact hnode
      · exact hnode.unlined
    obtain ⟨hv, he, hc, hi⟩ := evaluators_do_expression π depth (m := m) id hscope hfits
    simp only [finals, List.mem_cons, List.not_mem_nil, or_false] at hm'
    rcases hm' with rfl | rfl | rfl | rfl
    · exact (hv.changes_final hsound).entries_eq_inScope hscope
    · exact (he.changes_final hsound).entries_eq_inScope hscope
    · exact (hc.changes_final hsound).entries_eq_inScope hscope
    · exact (hi.changes_final hsound).entries_eq_inScope hscope

/-- A declaration and an expression in the main scope of a new session. -/
theorem declares_in_main_scope :
    (play false []).machine.store.Has (.scope mainScope) ∧
      (play false []).machine.store.DeclaresIn mainScope
        (final (instruction 5 (.variableDecl 1 "x" true (.integer 1 5) false) mainScope)
          (play false []).machine).store ∧
      (final (value 5 (.identifier 1 "x") mainScope)
          (play false []).machine).store.entries mainScope =
        (play false []).machine.store.entries mainScope := by
  have hscope : (play false []).machine.store.Has (.scope mainScope) := by decide
  have h := declares_in_active_scope false [] mainScope hscope 5
  have hread : Grammar.expression 5 (Stream.ofSource "x") =
      .ok (.identifier 1 "x") ⟨[], none, some ⟨.name, "x", ⟨1, 1⟩⟩⟩ := by cbv
  refine ⟨hscope, ?_, ?_⟩
  · exact h.1 (.variableDecl 1 "x" true (.integer 1 5) false) _ (by simp [finals])
  · exact h.2 "x" 5 _ _ _ (refl _) hread (.identifier 1 "x") (by simp) _ (by simp [finals])

end Session

end Scriptlet
