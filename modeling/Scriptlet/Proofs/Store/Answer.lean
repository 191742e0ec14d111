import Scriptlet.Machine.Call
import Scriptlet.Proofs.Store.Change

/-!
# What the store answers

Much of evaluation asks the store a question that may have no answer: what a name stands for, what
an operator makes of two values, how a value is written. None of these questions changes the store.
An answer leads to cells that are there, and a refusal names a rule of the language.

* `Fault.isInternal` : the faults of a tree that the grammar does not give.
* `Permit.Admits` : the faults that an evaluation may end in.
* `Answers` : a question is answered with what is asked for or refused with such a fault.
-/

namespace Scriptlet

/-- Does a fault say that a tree is none that the grammar gives, or that a function is none that a
program can make? -/
def Fault.isInternal : Fault → Bool
  | .unsupportedNode .. | .unsupportedOperator .. | .unsupportedPath .. | .unsupportedTarget ..
  | .notOneCharacter .. | .restBeforeLast .. | .uncallableFunction .. => true
  | _ => false

/-- May an evaluation end in the fault? Where all code fits, no internal one occurs. -/
def Permit.Admits (π : Permit) (f : Fault) : Prop := π.strict → f.isInternal = false

variable {π : Permit} {α β : Type}

/-- The question is answered as asked for, or refused with a fault that may occur. -/
def Answers (π : Permit) (answer : Except Fault α) (P : α → Prop) : Prop :=
  match answer with
  | .ok a => P a
  | .error f => π.Admits f

namespace Answers

theorem bind {answer : Except Fault α} {next : α → Except Fault β} {P : α → Prop} {Q : β → Prop}
    (h : Answers π answer P) (hn : ∀ a, P a → Answers π (next a) Q) :
    Answers π (answer >>= next) Q := by
  cases answer with
  | ok a => exact hn a h
  | error f => exact h

theorem mono {answer : Except Fault α} {P Q : α → Prop} (h : Answers π answer P)
    (hP : ∀ a, P a → Q a) : Answers π answer Q := by
  cases answer with
  | ok a => exact hP a h
  | error f => exact h

theorem mapM {f : α → Except Fault β} {P : β → Prop} :
    ∀ (items : List α), (∀ a ∈ items, Answers π (f a) P) →
      Answers π (items.mapM f) fun bs => ∀ b ∈ bs, P b
  | [], _ => by
    intro b hb
    cases hb
  | a :: rest, h => by
    rw [List.mapM_cons]
    refine bind (h a List.mem_cons_self) ?_
    intro b hb
    refine bind (mapM rest fun a' ha' => h a' (List.mem_cons_of_mem _ ha')) ?_
    intro bs hbs
    exact List.forall_mem_cons.mpr ⟨hb, hbs⟩

end Answers

/-! ## Texts -/

theorem integerText_answers (n : Int) : Answers π (integerText n) fun _ => True := by
  unfold integerText
  split
  · trivial
  · exact fun _ => rfl

theorem Primitive.text_answers (p : Primitive) : Answers π p.text fun _ => True := by
  cases p with
  | int n => exact integerText_answers n
  | _ => trivial

theorem Primitive.nestedText_answers (p : Primitive) : Answers π p.nestedText fun _ => True := by
  cases p with
  | int n => exact integerText_answers n
  | _ => trivial

theorem Function.text_answers (f : Function) : Answers π f.text fun _ => True := by
  unfold Function.text
  split
  · trivial
  · trivial
  · trivial
  · exact fun _ => rfl

namespace Store

variable {s : Store}

theorem nested_answers : ∀ (limit depth : Nat) (v : Value),
    Answers π (s.nested limit depth v) fun _ => True
  | 0, _, _ => fun _ => rfl
  | limit + 1, depth, v => by
    cases v with
    | undefined => trivial
    | foreign content box => trivial
    | primitive p box => exact p.nestedText_answers
    | array id =>
      refine Answers.bind (Answers.mapM _ fun v _ => nested_answers limit depth v) ?_
      intro texts _
      trivial
    | object id =>
      rw [nested]
      cases hf : s.function? id with
      | some f => exact f.text_answers
      | none =>
        refine Answers.bind (Answers.mapM (P := fun _ => True) _ ?_) ?_
        · intro entry _
          refine Answers.bind (nested_answers limit (depth + 1) entry.2.value) ?_
          intro text _
          trivial
        · intro texts _
          trivial

theorem format_answers (limit : Nat) (v : Value) : Answers π (s.format limit v) fun _ => True := by
  cases v with
  | primitive p box => exact p.text_answers
  | _ => exact nested_answers limit 0 _

/-! ## Operators -/

theorem onNumerals_answers (o : Operator) (a b : Numeral) :
    Answers π (o.onNumerals a b) fun _ => True := by
  unfold Operator.onNumerals
  split
  · exact fun _ => rfl
  · split
    · exact fun _ => rfl
    · dsimp only
      split
      · trivial
      · split
        · trivial
        · exact fun _ => rfl

theorem arithmetic_answers (limit : Nat) (o : Operator) (a b : Value) :
    Answers π (s.arithmetic limit o a b) s.Holds := by
  unfold arithmetic
  split
  · refine Answers.bind (onNumerals_answers o _ _) ?_
    intro n _
    cases n <;> exact holds_primitive _ _
  · split
    · refine Answers.bind (format_answers limit a) ?_
      intro left _
      refine Answers.bind (format_answers limit b) ?_
      intro right _
      exact holds_primitive _ _
    · exact fun _ => rfl

theorem compare_answers (o : Operator) (a b : Value) : Answers π (s.compare o a b) s.Holds := by
  unfold compare
  split
  · exact holds_primitive _ _
  · exact holds_primitive _ _
  · exact fun _ => rfl

theorem membership_answers (key container : Value) :
    Answers π (s.membership key container) s.Holds := by
  unfold membership
  split
  · exact holds_primitive _ _
  · split
    · exact holds_primitive _ _
    · exact fun _ => rfl
  · exact fun _ => rfl

/-- Every operator of the language is one that is known here. -/
theorem operate_answers (limit : Nat) {o : Operator} (hk : π.strict → o ∈ Operator.all)
    (hi : o ≠ .instanceOf) (a b : Value) : Answers π (s.operate limit o a b) s.Holds := by
  unfold operate
  split
  · exact arithmetic_answers limit o a b
  · split
    · exact compare_answers o a b
    · next harith hcomp =>
      cases o with
      | isIn => exact membership_answers a b
      | eq => exact holds_primitive _ _
      | ne => exact holds_primitive _ _
      | instanceOf => exact absurd rfl hi
      | other sign =>
        intro hπ
        have hall := hk hπ
        simp [Operator.all] at hall
      | _ => simp [Operator.isArithmetic, Operator.isComparison] at harith hcomp

theorem isInstance_answers (v prototype : Value) :
    Answers π (s.isInstance v prototype) fun _ => True := by
  unfold isInstance
  split
  · split <;> trivial
  · exact fun _ => rfl

theorem readMember_answers (hc : s.Closed) (limit : Nat) (target : Value) (name : String) :
    Answers π (s.readMember limit target name) s.Holds := by
  unfold readMember
  split
  · exact hc.getProperty _ name
  · split
    · exact holds_primitive _ _
    · exact holds_undefined
  · split
    · exact holds_primitive _ _
    · exact fun _ => rfl
  · refine Answers.bind (format_answers limit target) ?_
    intro text _ _
    rfl

/-! ## Names and modules -/

theorem entityValue_answers (hc : s.Closed) {e : Entity} (he : s.Has e.ref) (name : String) :
    Answers π (s.entityValue e name) s.Holds := by
  cases e with
  | var id => exact (holds_detach _).mpr (hc.value id)
  | fn id => exact (holds_object id).mpr he.object_of_function
  | mod m => exact fun _ => rfl

theorem member_answers (hc : s.Closed) (m : Module) (name : String) :
    Answers π (s.member m name) fun e => s.Has e.ref := by
  unfold member
  split
  · exact fun _ => rfl
  · next e he =>
    split
    · exact hc.entry (Table.mem_of_get? he)
    · exact fun _ => rfl

theorem asModule_answers {e : Entity} (he : s.Has e.ref) (name : String) :
    Answers π (asModule e name) fun m => s.Has (.scope m.scope) := by
  cases e with
  | mod m => exact he
  | var id => exact fun _ => rfl
  | fn id => exact fun _ => rfl

/-- The nodes of a path are names and paths again. -/
theorem pathModule_answers (hc : s.Closed) (id : ScopeId) (limit : Nat) (node : Node)
    (hp : π.strict → node.isPath = true) (hf : π.strict → node.Fits True .expression) :
    Answers π (s.pathModule id limit node) fun m => s.Has (.scope m.scope) := by
  fun_induction Store.pathModule s id limit node with
  | case1 node => exact fun _ => rfl
  | case2 limit line name hr => exact fun _ => rfl
  | case3 limit line name e hr => exact asModule_answers (hc.resolved hr) name
  | case4 limit line outer name ih =>
    have hp' : π.strict → outer.isPath = true := by
      intro hπ
      cases hf hπ with
      | moduleAccess path module named => exact path
    have hf' : π.strict → outer.Fits True .expression := by
      intro hπ
      cases hf hπ with
      | moduleAccess path module named => exact module
    refine Answers.bind (ih hp' hf') ?_
    intro m _
    refine Answers.bind (member_answers hc m name) ?_
    intro e he
    exact asModule_answers he name
  | case5 limit node hi ha =>
    intro hπ
    have hpath := hp hπ
    cases node with
    | identifier line name => exact absurd rfl (hi line name)
    | moduleAccess line outer name => exact absurd rfl (ha line outer name)
    | _ => cases hpath

/-! ## Functions -/

theorem calleeOf_answers (hc : s.Closed) (scope : ScopeId) (name : String) :
    Answers π (s.calleeOf scope name) fun id => s.Has (.object id) := by
  unfold calleeOf
  split
  · exact fun _ => rfl
  · next hr => exact (hc.resolved hr).object_of_function
  · exact fun _ => rfl
  · next x hr =>
    split
    · next id hv =>
      split
      · have held := hc.value x
        rw [hv] at held
        exact (holds_object id).mp held
      · exact fun _ => rfl
    · exact fun _ => rfl

theorem asFunction_answers (limit : Nat) {v : Value} (hv : s.Holds v) :
    Answers π (s.asFunction limit v) fun id => s.Has (.object id) := by
  have refuse : Answers π
      (do .error (.uncallableValue (← s.format limit v)) : Except Fault ObjectId)
      fun id => s.Has (.object id) := by
    refine Answers.bind (format_answers limit v) ?_
    intro text _ _
    rfl
  unfold asFunction
  split
  · split
    · exact (holds_object _).mp hv
    · exact refuse
  · exact refuse

theorem checkArity_answers (hs : s.Sound π) (id : ObjectId) (count : Nat) :
    Answers π (s.checkArity id count) fun _ => True := by
  unfold checkArity
  split
  · next f hf =>
    unfold Function.checkArity
    split
    · next hh =>
      intro hπ
      have hfits := hs.coded hπ id f hf
      rw [hh] at hfits
      exact hfits.elim
    · trivial
    · split
      · exact fun _ => rfl
      · trivial
    · split
      · dsimp only
        split
        · exact fun _ => rfl
        · trivial
      · split
        · trivial
        · exact fun _ => rfl
  · trivial

end Store

end Scriptlet
