import Scriptlet.Proofs.Machine.Upkeep
import Scriptlet.Proofs.Session.Constant

/-!
# Invariants of a session

What no evaluation breaks no step of a session breaks either (`act_upholds`): besides evaluating, a
session only makes values for its host, gives the standard module other arguments, and empties the
scope of an entry point. So an invariant that holds of a new session holds ever after
(`play_upholds`).
-/

namespace Scriptlet

namespace Eval

variable {α : Type} {I : Store → Prop} {E : Entity → Store → Prop} {m : Machine}

theorem Upholds.final {act : Eval α} {P : α → Store → Prop} (h : Upholds I act P)
    (hm : I m.store) : I (Eval.final act m).store := by
  unfold Eval.final
  cases hr : act m with
  | ok a m' => exact (h.of_ok hm hr).1
  | error f m' => exact ((h.obeys m hm).of_error hr).1 hm

theorem upheld_of_mem_finals (U : Upkeep I E) {m' : Machine} (hm : I m.store) {depth : Nat}
    {node : Node} {scope : ScopeId} (hm' : m' ∈ finals depth node scope m) : I m'.store := by
  have huphold := evaluatorsUphold U depth
  simp only [finals, List.mem_cons, List.not_mem_nil, or_false] at hm'
  rcases hm' with rfl | rfl | rfl | rfl
  · exact (huphold.value node scope).final hm
  · exact (huphold.entity node scope).final hm
  · exact (huphold.control node scope).final hm
  · exact (huphold.instruction node scope).final hm

end Eval

namespace Session

open Eval

variable {I : Store → Prop} {E : Entity → Store → Prop}

theorem interleave_upholds {item : Reader Node} {act : Node → Eval Unit}
    (ha : ∀ node, Upholds I (act node) whatever) :
    ∀ (bound : List Token) (stream : Stream), Upholds I (interleave item act bound stream) whatever
  | bound, stream => by
    unfold interleave
    split
    · exact .throw _
    · exact .done ()
    · split
      · exact .throw _
      · refine (ha _).next fun _ => ?_
        cases bound with
        | nil => exact .throw _
        | cons t bound => exact interleave_upholds ha bound _

section

variable (U : Upkeep I E)
include U

theorem register_upholds (limit : Nat) (node : Node) :
    Upholds I (register limit node) whatever :=
  declared_upholds U ((evaluatorsUphold U limit).entity node mainScope) mainScope fun e => .done e

theorem bindArgs_upholds (argv : List String) : Upholds I (bindArgs argv) whatever := by
  refine (Upholds.change fun _ => U.drop standardScope _).next fun _ => ?_
  refine (newArray_upholds U _).next fun args => (newVariable_upholds U ..).bind ?_
  exact fun e m _ he => declare_obeys U he standardScope

theorem enter_upholds (limit : Nat) (name : String) (c : Closure) :
    Upholds I (enter limit name c) whatever := by
  cases limit with
  | zero => exact .throw _
  | succ depth =>
    refine (newScope_upholds U ..).next fun scope => ?_
    refine (instructions_upholds (evaluatorsUphold U depth).instruction scope _).next fun _ => ?_
    have hclean : ∀ s : Store,
        s.clean scope = s.modifyEntries scope (·.filter fun _ => false) := by
      intro s
      simp [Store.clean]
    refine .change fun s hs => ?_
    rw [hclean]
    exact U.drop scope _ hs

theorem run_upholds (limit : Nat) (source : String) (argv : List String) :
    Upholds I (run limit source argv) whatever := by
  refine Upholds.next (P := whatever) (interleave_upholds ?_ _ _) fun _ =>
    (Upholds.query _).next fun _ => (bindArgs_upholds U argv).next fun _ => enter_upholds U ..
  intro node
  exact (register_upholds U limit node).next fun _ => (Upholds.ask _).next fun _ => .note _

theorem call_upholds (limit : Nat) (name : String) (args : List Value) :
    Upholds I (call limit name args) whatever := by
  refine (Upholds.query _).next fun _ => (Upholds.query _).next fun v => ?_
  split
  · refine (Upholds.ask _).next fun isFunction => ?_
    split
    · exact (evaluatorsUphold U limit).invoke ..
    · exact .throw _
  · exact .throw _

theorem expression_upholds (limit : Nat) (source : String) :
    Upholds I (expression limit source) whatever := by
  unfold expression
  split
  · exact .throw _
  · exact ((evaluatorsUphold U limit).value ..).next fun _ => .done _

theorem box_upholds (p : Primitive) : Upholds I (Host.box p) whatever :=
  Upholds.next (P := whatever) (.add (fun _ => U.addBox) fun _ _ => trivial) fun _ => .done _

theorem keep_upholds (v : Value) : Upholds I (Host.keep v) whatever := by
  unfold Host.keep
  split
  · exact box_upholds U _
  · exact .done _

/-- The properties of an object of the host are written one by one. -/
theorem object_upholds (properties : List (String × Property)) (prototype : Option ObjectId) :
    Upholds I (Host.object properties prototype) whatever := by
  refine newObject_upholds U prototype ?_
  refine List.foldlRecOn (motive := fun t : Table Property => t.keys.Nodup) properties _
    List.nodup_nil ?_
  exact fun t ht pair _ => Table.nodup_keys_put ht pair.1 pair.2

theorem act_upholds (limit : Nat) (held : List Value) (step : Step) :
    Upholds I (act limit held step) whatever := by
  cases step with
  | load source =>
    refine Upholds.next (P := whatever) (interleave_upholds ?_ _ _) fun _ => .done _
    exact fun node => (register_upholds U limit node).next fun _ => .done ()
  | run source argv => exact (run_upholds U ..).next fun _ => .done _
  | call name args =>
    exact (call_upholds U ..).next fun v => (keep_upholds U v).next fun _ => .done _
  | expression source =>
    exact (expression_upholds U ..).next fun result => (keep_upholds U result.1).next
      fun _ => .done _
  | execute source =>
    refine Upholds.next (P := whatever) (interleave_upholds ?_ _ _) fun _ => .done _
    exact fun node => (evaluatorsUphold U limit).instruction node mainScope
  | primitive p => exact (box_upholds U p).next fun _ => .done _
  | foreign content =>
    refine Upholds.next (P := whatever) (Upholds.next (P := whatever) ?_ fun _ => .done _)
      fun _ => .done _
    exact .add (fun _ => U.addBox) fun _ _ => trivial
  | array items => exact (newArray_upholds U _).next fun _ => .done _
  | object fields prototype => exact (object_upholds U ..).next fun _ => .done _
  | native name arity action =>
    exact ((newFunction_upholds U _).next fun _ => .done _).next fun _ => .done _

/-- What holds of a new session and is not broken by evaluation holds after every sequence of
steps. -/
theorem play_upholds (hfirst : I firstStore) (tracing : Bool) (history : List (Nat × Step)) :
    I (play tracing history).machine.store := by
  refine List.foldlRecOn (motive := fun st : State => I st.machine.store) history _ hfirst ?_
  intro st hst step _
  rw [State.perform_machine]
  exact (act_upholds U step.1 st.held step.2).final hst

end

end Session

end Scriptlet
