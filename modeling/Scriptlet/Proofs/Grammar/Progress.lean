import Mathlib
import Scriptlet.Proofs.Grammar.Fits
import Scriptlet.Proofs.Token.Progress

/-!
# Reading comes to an end

A source text is read to its end or to a problem in it, and nothing of it is passed over. Every
construct takes a token before it contains itself again, or is one of at most five that pass the
work on to each other, so five levels of nesting for each token are enough (`readersSteady`): at any
such depth the reading comes to the same, and its bounds are not reached.

The constructs are taken one by one, as in `Grammar.Fits`; each is told how steady the readers of
its parts are. How much room a reader needs, besides the five levels for each token to come, is what
it passes on before it takes a token: a primary needs one level, an operand two, a chain three, an
expression four and an instruction five.

* `Readings` : a sequence of declarations that are read one after the other, each with its tokens.
* `program_reads_all` : what reading a whole source text comes to.
-/

namespace Scriptlet.Grammar

open Token.Pattern Reader

variable {d t : Nat}

/-! ## Parts of functions -/

theorem integerOf_steady (text : String) : Steady d t 0 (integerOf text) (integerOf text) := by
  unfold integerOf
  dsimp only
  split
  · exact .pure _
  · exact .throw (by simp)

theorem param_steady (found : List Param) : Steady d t 1 (param found) (param found) := by
  refine (skips_steady _).next fun isRest => ?_
  refine (expectAs_steady _ _).after fun name => ?_
  have finish : Steady d (t + 5) 0
      (do separator (punct ")"); return (⟨name.text, isRest⟩ : Param))
      (do separator (punct ")"); return (⟨name.text, isRest⟩ : Param)) :=
    (separator_steady _).next fun _ => .pure _
  dsimp only
  split
  · exact .throw_bind (by simp) _ _
  · split
    · refine (sees_steady _).next fun closes => ?_
      split
      · exact finish
      · exact fail_bind _ _ _
    · exact finish

theorem params_steady : Steady d t 1 params params :=
  (expect_steady _).after fun _ => (listUntil_steady param_steady).any

section

variable {expression expression' instruction instruction' conditional conditional' declaration
  declaration' operand operand' primary primary' : Reader Node} {chain chain' : Nat → Reader Node}

theorem args_steady (he : Steady d 4 1 expression expression') :
    Steady d 0 1 (args expression) (args expression') :=
  (expect_steady _).after fun _ => (commaList_steady (he.within (by omega))).any

theorem returnStatement_steady (he : Steady d 4 1 expression expression') :
    Steady d 0 1 (returnStatement expression) (returnStatement expression') := by
  refine (expect_steady _).after fun _ => ?_
  refine (or_steady (sees_steady _) (sees_steady _)).next fun ends => ?_
  cases ends with
  | true => exact (accept_steady _).next fun _ => .pure _
  | false =>
    exact (he.within (by omega)).any.next fun value => (accept_steady _).next fun _ => .pure value

/-- The instructions of a body take a token each. -/
theorem bodyUntilBrace_steady (he : Steady d 4 1 expression expression')
    (hi : Steady d 5 1 instruction instruction') :
    ∀ (bound : List Token) (found : List Node) (s : Stream), s.pending.length ≤ bound.length →
      SteadyAt d 5 (fun _ => 1) s (bodyUntilBrace expression instruction bound found)
        (bodyUntilBrace expression' instruction' bound found)
  | bound, found, s, hb => by
    unfold bodyUntilBrace
    refine (skips_steadyAt _).bind ?_
    intro closed s₁ _ h₁
    cases closed with
    | true => exact SteadyAt.pure rfl
    | false =>
      refine (sees_steady _ s₁).bind ?_
      intro returns s₂ _ h₂
      cases returns with
      | true =>
        refine ((returnStatement_steady he).within (by omega)).after (fun value => ?_) s₂
        refine (skips_steady _).next fun closed => ?_
        cases closed with
        | true => exact .pure _
        | false => exact fail_bind _ _ _
      | false =>
        refine (hi s₂).bind ?_
        intro node s₃ _ h₃
        have hless : s₃.pending.length < s.pending.length := ((h₁.trans h₂).trans h₃).length_le
        refine again_steady hb hless fun rest hrest => ?_
        exact (bodyUntilBrace_steady he hi rest (node :: found) s₃ hrest).mono (by omega)
          fun _ => Nat.zero_le _
termination_by _ _ s => s.pending.length

theorem functionBody_steady (he : Steady d 4 1 expression expression')
    (hi : Steady d 5 1 instruction instruction') :
    Steady d 0 1 (functionBody expression instruction) (functionBody expression' instruction') := by
  refine skips_next ?_ ?_
  · exact (he.within (by omega)).any.next fun value => .pure _
  · refine (expectAs_steady _ _).after fun _ => pending_next fun s => ?_
    exact (bodyUntilBrace_steady he hi s.pending [] s (Nat.le_refl _)).mono (by omega)
      fun _ => Nat.zero_le _

theorem functionExpr_steady (he : Steady d 4 1 expression expression')
    (hi : Steady d 5 1 instruction instruction') :
    Steady d 0 1 (functionExpr expression instruction) (functionExpr expression' instruction') := by
  refine (expect_steady _).after fun _ => ?_
  refine (accept_steady _).next fun _ => params_steady.any.next fun _ => ?_
  exact ((functionBody_steady he hi).within (by omega)).any.next fun _ => .pure _

/-! ## Declarations -/

theorem functionDecl_steady (he : Steady d 4 1 expression expression')
    (hi : Steady d 5 1 instruction instruction') (isExported : Bool) :
    Steady d 0 1 (functionDecl expression instruction isExported)
      (functionDecl expression' instruction' isExported) := by
  refine (expect_steady _).after fun _ => ?_
  refine (expectAs_steady _ _).any.next fun _ => params_steady.any.next fun _ => ?_
  exact ((functionBody_steady he hi).within (by omega)).any.next fun _ => .pure _

theorem variableDecl_steady (he : Steady d 4 1 expression expression') (isExported : Bool) :
    Steady d 0 1 (variableDecl expression isExported) (variableDecl expression' isExported) := by
  refine advance_steady.after fun _ => (expectAs_steady _ _).any.next fun _ => ?_
  exact (expect_steady _).any.next fun _ => (he.within (by omega)).any.next fun _ => .pure _

theorem destructuring_steady (he : Steady d 4 1 expression expression') :
    Steady d 0 1 (destructuring expression) (destructuring expression') := by
  refine advance_steady.after fun _ => (expect_steady _).any.next fun _ => ?_
  refine (commaList_steady ((expectAs_steady _ _).map _)).any.next fun _ => ?_
  exact (expect_steady _).any.next fun _ => (he.within (by omega)).any.next fun _ => .pure _

theorem terminated_steady (h : Steady d t 1 declaration declaration') :
    Steady d t 1 (terminated declaration) (terminated declaration') :=
  h.after fun _ => (accept_steady _).next fun _ => .pure _

/-- An item of a list that the end of the text would break off. -/
theorem unlessFinished_steady {item item' : Reader Node} (h : Steady d t 1 item item')
    (problem : Problem) :
    Steady d t 1
      (do
        if ← finished then fail problem
        item)
      (do
        if ← finished then fail problem
        item') := by
  refine finished_steady.next fun ended => ?_
  cases ended with
  | true => exact fail_bind _ _ _
  | false => exact h

theorem moduleDecl_steady (hd : Steady d 1 1 declaration declaration') (isExported : Bool) :
    Steady d 0 1 (moduleDecl declaration isExported) (moduleDecl declaration' isExported) := by
  refine (expect_steady _).after fun _ => (expectAs_steady _ _).any.next fun name => ?_
  refine (expect_steady _).any.next fun _ => ?_
  have item := unlessFinished_steady (terminated_steady hd) (.unterminatedModule name.text)
  exact (listUntil_steady fun _ => item.within (by omega)).any.next fun _ => .pure _

/-! ## Statements -/

theorem block_steady (hi : Steady d 5 1 instruction instruction') :
    Steady d 0 1 (block instruction) (block instruction') := by
  refine (expectAs_steady _ _).after fun _ => ?_
  exact (listUntil_steady fun _ => unlessFinished_steady hi .unterminatedBlock).any

theorem conditionalOf_steady (he : Steady d 4 1 expression expression')
    (hi : Steady d 5 1 instruction instruction') (hc : Steady d 1 1 conditional conditional') :
    Steady d 0 1 (conditionalOf expression instruction conditional)
      (conditionalOf expression' instruction' conditional') := by
  refine (expect_steady _).after fun _ => (he.within (by omega)).any.next fun _ => ?_
  refine ((block_steady hi).within (by omega)).any.next fun _ => ?_
  refine (skips_steady _).next fun alternative => ?_
  cases alternative with
  | true =>
    refine (sees_steady _).next fun nested => ?_
    cases nested with
    | true => exact (hc.within (by omega)).any.next fun _ => .pure _
    | false => exact ((block_steady hi).within (by omega)).any.next fun _ => .pure _
  | false => exact .pure _

/-! ## Expressions -/

theorem nextOperator_steady : Steady d t 0 nextOperator nextOperator := by
  refine (peek_steady 0).next fun o => ?_
  cases o with
  | none => exact .pure _
  | some t => exact .pure _

/-- An operator and its right operand take two tokens. -/
theorem climb_steady (hc : ∀ least, Steady d 3 1 (chain least) (chain' least)) (least : Nat) :
    ∀ (bound : List Token) (left : Node) (s : Stream), s.pending.length ≤ bound.length →
      SteadyAt d 0 (fun _ => 0) s (climb chain least bound left) (climb chain' least bound left)
  | bound, left, s, hb => by
    unfold climb
    refine (nextOperator_steady s).bind ?_
    intro o s₁ _ h₁
    cases o with
    | none => exact SteadyAt.pure rfl
    | some operator =>
      dsimp only
      by_cases loose : operator.precedence < least
      · rw [if_pos loose, if_pos loose]
        exact SteadyAt.pure rfl
      · rw [if_neg loose, if_neg loose]
        refine (advance_steady s₁).bind ?_
        intro sign s₂ _ h₂
        refine ((hc _).within (by omega) s₂).bind ?_
        intro right s₃ _ h₃
        have htook : s.Took 1 s₃ := ((h₁.trans h₂).trans h₃).mono (by omega)
        have hless : s₃.pending.length < s.pending.length := htook.length_le
        refine again_steady hb hless fun rest hrest => ?_
        exact (climb_steady hc least rest _ s₃ hrest).mono (by omega) fun _ => Nat.zero_le _
termination_by _ _ s => s.pending.length

/-- What is applied to an operand takes a token. -/
theorem application?_steady (he : Steady d 4 1 expression expression') (node : Node) (s : Stream) :
    SteadyAt d 0 (fun o => if o.isSome then 1 else 0) s (application? expression node)
      (application? expression' node) := by
  have taking : ∀ {r r' : Reader (Option Node)} (s : Stream), Steady d 0 1 r r' →
      SteadyAt d 0 (fun o => if o.isSome then 1 else 0) s r r' := by
    intro r r' s h
    refine (h s).mono (Nat.le_refl 0) fun o => ?_
    split <;> omega
  refine (sees_steady _ s).bind ?_
  intro called s₁ _ _
  cases called with
  | true =>
    refine taking s₁ ((peek_steady 0).next fun _ => ?_)
    exact (args_steady he).after fun _ => .pure _
  | false =>
    refine (sees_steady _ s₁).bind ?_
    intro dotted s₂ _ _
    cases dotted with
    | true =>
      refine taking s₂ (advance_steady.after fun dot => (peek_steady 0).next fun o => ?_)
      cases o with
      | none => exact fail_steady _
      | some t =>
        dsimp only
        split
        · exact advance_steady.any.next fun _ => .pure _
        · exact fail_steady _
    | false =>
      refine (sees_steady _ s₂).bind ?_
      intro separated s₃ _ _
      cases separated with
      | true =>
        refine taking s₃ ?_
        cases hp : node.isPath with
        | false => exact fail_bind _ _ _
        | true =>
          exact advance_steady.after fun _ => (expectAs_steady _ _).any.next fun _ => .pure _
      | false => exact SteadyAt.pure rfl

theorem applications_steady (he : Steady d 4 1 expression expression') :
    ∀ (bound : List Token) (node : Node) (s : Stream), s.pending.length ≤ bound.length →
      SteadyAt d 0 (fun _ => 0) s (applications expression bound node)
        (applications expression' bound node)
  | bound, node, s, hb => by
    unfold applications
    refine (application?_steady he node s).bind ?_
    intro o s₁ _ h₁
    cases o with
    | none => exact SteadyAt.pure rfl
    | some next =>
      have hless : s₁.pending.length < s.pending.length := h₁.length_le
      refine again_steady hb hless fun rest hrest => ?_
      exact (applications_steady he rest next s₁ hrest).mono (by omega) fun _ => Nat.zero_le _
termination_by _ _ s => s.pending.length

theorem applied_steady (he : Steady d 4 1 expression expression') (node : Node) :
    Steady d 0 0 (applied expression node) (applied expression' node) :=
  pending_next fun s => applications_steady he s.pending node s (Nat.le_refl _)

theorem property_steady (he : Steady d 4 1 expression expression') :
    Steady d 0 1 (property expression) (property expression') := by
  refine (peek_steady 0).next fun o => ?_
  cases o with
  | none => exact fail_steady _
  | some t =>
    dsimp only
    split
    · refine advance_steady.after fun _ => (expect_steady _).any.next fun _ => ?_
      exact (he.within (by omega)).any.next fun _ => .pure _
    · exact fail_steady _

theorem objectLiteral_steady (he : Steady d 4 1 expression expression') :
    Steady d 0 1 (objectLiteral expression) (objectLiteral expression') := by
  refine (expect_steady _).after fun _ => ?_
  exact (commaList_steady ((property_steady he).within (by omega))).any.next fun _ => .pure _

theorem arrayLiteral_steady (he : Steady d 4 1 expression expression') :
    Steady d 0 1 (arrayLiteral expression) (arrayLiteral expression') := by
  refine (expect_steady _).after fun _ => ?_
  exact (commaList_steady (he.within (by omega))).any.next fun _ => .pure _

theorem parenthesised_steady (he : Steady d 4 1 expression expression') :
    Steady d 0 1 (parenthesised expression) (parenthesised expression') := by
  refine advance_steady.after fun _ => (he.within (by omega)).any.next fun _ => ?_
  exact (expect_steady _).any.next fun _ => .pure _

theorem primaryOf_steady (he : Steady d 4 1 expression expression')
    (hi : Steady d 5 1 instruction instruction') :
    Steady d 0 1 (primaryOf expression instruction) (primaryOf expression' instruction') := by
  refine (peek_steady 0).next fun o => ?_
  cases o with
  | none => exact fail_steady _
  | some t =>
    have taken : ∀ node : Node, Steady d 0 1 (do let _ ← advance; return node)
        (do let _ ← advance; return node) := fun _ => advance_steady.after fun _ => .pure _
    dsimp only
    cases t.kind with
    | integer => exact advance_steady.after fun _ => (integerOf_steady _).next fun _ => .pure _
    | float | string | char | name => exact taken _
    | keyword =>
      refine .ite (taken _) (.ite (taken _) (.ite ?_ (fail_steady _)))
      exact functionExpr_steady he hi
    | punct =>
      refine .ite (parenthesised_steady he) (.ite (objectLiteral_steady he) ?_)
      exact .ite (arrayLiteral_steady he) (fail_steady _)
    | op => exact fail_steady _

theorem operandOf_steady (he : Steady d 4 1 expression expression')
    (ho : Steady d 2 1 operand operand') (hp : Steady d 1 1 primary primary') :
    Steady d 1 1 (operandOf expression operand primary)
      (operandOf expression' operand' primary') := by
  have happlied : ∀ node, Steady d 6 0 (applied expression node) (applied expression' node) :=
    fun node => (applied_steady he node).within (by omega)
  refine (sees_steady _).next fun negated => .ite ?_ ?_
  · refine advance_steady.after fun _ => (sees_steady _).next fun integer => .ite ?_ ?_
    · exact advance_steady.any.next fun _ => (integerOf_steady _).next fun _ => happlied _
    · refine (sees_steady _).next fun float => .ite ?_ ?_
      · exact advance_steady.any.next fun _ => happlied _
      · exact (ho.within (by omega)).any.next fun _ => .pure _
  · exact hp.after fun _ => happlied _

theorem chainOf_steady (hc : ∀ least, Steady d 3 1 (chain least) (chain' least))
    (ho : Steady d 2 1 operand operand') (least : Nat) :
    Steady d 2 1 (chainOf chain operand least) (chainOf chain' operand' least) := by
  refine ho.after fun left => pending_next fun s => ?_
  exact (climb_steady hc least s.pending left s (Nat.le_refl _)).mono (by omega)
    fun _ => Nat.zero_le _

theorem expressionOf_steady (he : Steady d 4 1 expression expression')
    (hc : ∀ least, Steady d 3 1 (chain least) (chain' least)) :
    Steady d 3 1 (expressionOf expression chain) (expressionOf expression' chain') := by
  refine (hc 1).after fun left => (sees_steady _).next fun assigned => .ite ?_ (.pure _)
  cases left.isTarget with
  | false => exact fail_bind _ _ _
  | true =>
    exact advance_steady.any.next fun _ => (he.within (by omega)).any.next fun _ => .pure _

theorem seesVariable_steady : Steady d t 0 seesVariable seesVariable :=
  or_steady (sees_steady _) (sees_steady _)

theorem instructionOf_steady (he : Steady d 4 1 expression expression')
    (hi : Steady d 5 1 instruction instruction') (hc : Steady d 1 1 conditional conditional')
    (hd : Steady d 1 1 declaration declaration') :
    Steady d 4 1 (instructionOf expression instruction conditional declaration)
      (instructionOf expression' instruction' conditional' declaration') := by
  refine terminated_steady (seesVariable_steady.next fun _ => .ite ?_ ?_)
  · refine (check_steady _ _).next fun _ => .ite ?_ ?_
    · exact (destructuring_steady he).within (by omega)
    · exact (variableDecl_steady he false).within (by omega)
  refine (and_steady (sees_steady _) (check_steady _ _)).next fun _ => .ite ?_ ?_
  · exact (functionDecl_steady he hi false).within (by omega)
  refine (sees_steady _).next fun _ => .ite ((moduleDecl_steady hd false).within (by omega)) ?_
  refine (sees_steady _).next fun _ => .ite (hc.within (by omega)) ?_
  refine (sees_steady _).next fun _ => .ite (fail_steady _) ?_
  exact (sees_steady _).next fun _ => .ite (fail_steady _) he

theorem declarationOf_steady (he : Steady d 4 1 expression expression')
    (hi : Steady d 5 1 instruction instruction') (hd : Steady d 1 1 declaration declaration') :
    Steady d 0 1 (declarationOf expression instruction declaration)
      (declarationOf expression' instruction' declaration') := by
  refine (skips_steady _).next fun isExported => ?_
  refine (sees_steady _).next fun _ => .ite (functionDecl_steady he hi isExported) ?_
  refine seesVariable_steady.next fun _ => .ite ?_ ?_
  · refine (check_steady _ _).next fun _ => .ite (fail_bind _ _ _) ?_
    exact variableDecl_steady he isExported
  exact (sees_steady _).next fun _ => .ite (moduleDecl_steady hd isExported) (fail_steady _)

end

/-! ## The constructs that contain themselves -/

/-- How steady the readers of a nesting depth are, compared to those of another. -/
structure ReadersSteady (depth depth' : Nat) : Prop where
  expression : Steady depth 4 1 (expression depth) (expression depth')
  chain : ∀ least, Steady depth 3 1 (chain depth least) (chain depth' least)
  operand : Steady depth 2 1 (operand depth) (operand depth')
  primary : Steady depth 1 1 (primary depth) (primary depth')
  instruction : Steady depth 5 1 (instruction depth) (instruction depth')
  conditional : Steady depth 1 1 (conditional depth) (conditional depth')
  declaration : Steady depth 1 1 (declaration depth) (declaration depth')

/-- The readers of every nesting depth are steady, compared to those of any greater one. -/
theorem readersSteady : ∀ {depth depth' : Nat}, depth ≤ depth' → ReadersSteady depth depth'
  | 0, _, _ => ⟨.zero, fun _ => .zero, .zero, .zero, .zero, .zero, .zero⟩
  | _ + 1, 0, h => absurd h (Nat.not_succ_le_zero _)
  | _ + 1, _ + 1, h =>
    have ih := readersSteady (Nat.le_of_succ_le_succ h)
    { expression := (expressionOf_steady ih.expression ih.chain).deeper
      chain := fun least => (chainOf_steady ih.chain ih.operand least).deeper
      operand := (operandOf_steady ih.expression ih.operand ih.primary).deeper
      primary := (primaryOf_steady ih.expression ih.instruction).deeper
      instruction := (instructionOf_steady ih.expression ih.instruction ih.conditional
        ih.declaration).deeper
      conditional := (conditionalOf_steady ih.expression ih.instruction ih.conditional).deeper
      declaration := (declarationOf_steady ih.expression ih.instruction ih.declaration).deeper }

theorem root_steady {depth depth' : Nat} (h : depth ≤ depth') :
    Steady depth 1 1 (root depth) (root depth') :=
  terminated_steady (readersSteady h).declaration

/-! ## Whole programs -/

/-- Declarations that are read from a stream one after the other, each with the tokens that it takes
from the front, of which there is at least one. -/
inductive Readings (depth : Nat) : Stream → List (Node × List Token) → Stream → Prop where
  | done (s : Stream) : Readings depth s [] s
  | more {s s₁ s₂ : Stream} {node : Node} {taken : List Token} {items : List (Node × List Token)}
      (read : root depth s = .ok node s₁) (front : s.pending = taken ++ s₁.pending)
      (some : taken ≠ []) (rest : Readings depth s₁ items s₂) :
      Readings depth s ((node, taken) :: items) s₂

namespace Readings

variable {depth : Nat} {s s' : Stream} {items : List (Node × List Token)}

/-- Nothing is passed over, and nothing is read twice. -/
theorem pending_eq (h : Readings depth s items s') :
    s.pending = (items.map (·.2)).flatten ++ s'.pending := by
  induction h with
  | done s => rfl
  | more _ front _ _ ih => rw [front, ih, List.map_cons, List.flatten_cons, List.append_assoc]

theorem took (h : Readings depth s items s') : s.Took 0 s' := by
  induction h with
  | done s => exact .refl s
  | more read _ _ _ ih =>
    exact (((root_steady (Nat.le_refl depth) _).took _ _ read).trans ih).mono (Nat.zero_le _)

end Readings

/-- How the reading of declarations stops at a stream: at the end of the text, or with a fault. -/
inductive Halts (depth : Nat) (s : Stream) : Option Fault → Prop where
  | ended (h : finished s = .ok true s) : Halts depth s none
  | cut {f : Fault} {s' : Stream} (h : finished s = .error f s') : Halts depth s (some f)
  | refused {f : Fault} {s' : Stream} (h : root depth s = .error f s') : Halts depth s (some f)

/-- Whether the text has ended is only looked at. -/
theorem finished_eq_ok {s s' : Stream} {ended : Bool} (h : finished s = .ok ended s') : s' = s := by
  obtain ⟨o, s₁, ho, h⟩ := bind_eq_ok h
  cases h
  exact (peek_eq_ok ho).1

/-- A text that has ended was scanned to its end. -/
theorem end_of_finished {s s' : Stream} (h : finished s = .ok true s') :
    s.pending = [] ∧ s.failure = none := by
  obtain ⟨o, s₁, ho, h⟩ := bind_eq_ok h
  obtain ⟨-, heq⟩ := peek_eq_ok ho
  cases o with
  | some t => cases h
  | none =>
    have hpending : s.pending = [] := by simpa using heq.symm
    refine ⟨hpending, ?_⟩
    cases hfailure : s.failure with
    | none => rfl
    | some f =>
      rw [peek, hpending, List.getElem?_nil, hfailure] at ho
      cases ho

/-- Reading declaration after declaration: as each takes a token, the bound is not reached. -/
theorem rootsFrom_readings (depth : Nat) : ∀ (bound : List Token) (found : List Node) (s : Stream),
    s.pending.length ≤ bound.length → ∃ items last, Readings depth s items last ∧
      (rootsFrom depth bound found s).1 = found.reverse ++ items.map (·.1) ∧
      Halts depth last (rootsFrom depth bound found s).2.1
  | bound, found, s, hb => by
    unfold rootsFrom
    cases hf : finished s with
    | error f s₁ => exact ⟨[], s, .done s, by simp, .cut hf⟩
    | ok ended s₁ =>
      obtain rfl := finished_eq_ok hf
      cases ended with
      | true => exact ⟨[], s₁, .done s₁, by simp, .ended hf⟩
      | false =>
        dsimp only
        cases hr : root depth s₁ with
        | error f s₂ => exact ⟨[], s₁, .done s₁, by simp, .refused hr⟩
        | ok node s₂ =>
          have htook := (root_steady (Nat.le_refl depth) s₁).took node s₂ hr
          obtain ⟨taken, front, hlength⟩ := htook.tokens
          have hless := htook.length_le
          cases bound with
          | nil => exact absurd (Nat.le_trans hless hb) (Nat.not_succ_le_zero _)
          | cons first bound =>
            rw [List.length_cons] at hb
            obtain ⟨items, last, hreadings, hnodes, hhalts⟩ :=
              rootsFrom_readings depth bound (node :: found) s₂ (by omega)
            refine ⟨(node, taken) :: items, last, ?_, by simpa using hnodes, hhalts⟩
            exact .more hr front (List.ne_nil_of_length_pos hlength) hreadings

/-- At any depth that leaves room the declarations are read in the same way. -/
theorem rootsFrom_same {depth depth' : Nat} (h : depth ≤ depth') :
    ∀ (bound : List Token) (found : List Node) (s : Stream), s.Room depth 1 →
      rootsFrom depth' bound found s = rootsFrom depth bound found s
  | bound, found, s, room => by
    unfold rootsFrom
    cases hf : finished s with
    | error f s₁ => rfl
    | ok ended s₁ =>
      obtain rfl := finished_eq_ok hf
      cases ended with
      | true => rfl
      | false =>
        dsimp only
        rw [(root_steady h s₁).same room]
        cases hr : root depth s₁ with
        | error f s₂ => rfl
        | ok node s₂ =>
          cases bound with
          | nil => rfl
          | cons first bound =>
            refine rootsFrom_same h bound (node :: found) s₂ ?_
            exact (((root_steady h s₁).took node s₂ hr).room room).mono (by omega)

/-- What stops the reading is the end of the text, a problem in it or an integer with too many
digits, unless there is no room. -/
theorem Halts.fault {depth : Nat} {s : Stream} {fault : Option Fault} (h : Halts depth s fault)
    (hs : s.Sound) : ∀ f ∈ fault, f.OfReading ∧ (s.Room depth 1 → f ≠ .overflow) := by
  intro f hf
  cases h with
  | ended h => cases hf
  | cut h =>
    cases hf
    exact ⟨((finished_yields s hs).of_error h).2,
      fun room => (finished_steady s).bounded room f _ h⟩
  | refused h =>
    cases hf
    exact ⟨((root_yields depth s hs).of_error h).2,
      fun room => (root_steady (Nat.le_refl depth) s).bounded room f _ h⟩

/-- Reading a whole source text ends, and passes over nothing. A nesting depth of five levels for
each token is enough, and a greater one makes no difference; reading fails only with a problem in
the text or an integer with too many digits, unless that depth is not there. The declarations are
read one after the other, each from at least one token at the front of what is left; and if there is
no fault then the text was scanned to its end, and all of its tokens were taken. -/
theorem program_reads_all (depth : Nat) (source : String) :
    (∀ depth', 5 * (Token.scan source).1.length < depth → depth ≤ depth' →
      program depth' source = program depth source) ∧
    (∀ f ∈ (program depth source).2, f.kind = .reading ∨ f.kind = .digits ∨
      f = .overflow ∧ depth ≤ 5 * (Token.scan source).1.length) ∧
    ∃ items last, Readings depth (Stream.ofSource source) items last ∧
      items.map (·.1) = (program depth source).1 ∧
      (Token.scan source).1 = (items.map (·.2)).flatten ++ last.pending ∧
      ((program depth source).2 = none → last.pending = [] ∧ (Token.scan source).2 = none) := by
  let s := Stream.ofSource source
  have room : 5 * (Token.scan source).1.length < depth → s.Room depth 1 := by
    intro hdepth
    refine ⟨?_, hdepth⟩
    intro hfailure
    exact (Stream.failure_ofSource source _ hfailure).ne_overflow rfl
  obtain ⟨items, last, hreadings, hnodes, hhalts⟩ :=
    rootsFrom_readings depth s.pending [] s (Nat.le_refl _)
  have htook : s.Took 0 last := hreadings.took
  refine ⟨?_, ?_, items, last, hreadings, hnodes.symm, hreadings.pending_eq, ?_⟩
  · intro depth' hdepth hle
    have hsame : roots depth' s = roots depth s := rootsFrom_same hle s.pending [] s (room hdepth)
    show ((roots depth' s).1, (roots depth' s).2.1) = ((roots depth s).1, (roots depth s).2.1)
    rw [hsame]
  · intro f hf
    have hsound : last.Sound := (Stream.sound_ofSource source).before htook.before
    obtain ⟨hreading, hbounded⟩ := hhalts.fault hsound f hf
    refine hreading.imp_right (Or.imp_right fun hkind => ?_)
    have hoverflow : f = .overflow := Fault.eq_overflow_of_kind hkind
    refine ⟨hoverflow, Nat.le_of_not_lt fun hdepth => ?_⟩
    exact hbounded (htook.room (room hdepth)) hoverflow
  · intro hnone
    have hended : Halts depth last none := hnone ▸ hhalts
    cases hended with
    | ended h =>
      obtain ⟨hpending, hfailure⟩ := end_of_finished h
      exact ⟨hpending, htook.failure.symm.trans hfailure⟩

/-- A text that is read to its end, and one that breaks off in its second declaration. -/
theorem program_reads_all_of_two_texts :
    let whole := "const a = 1; fn f() = a"
    let broken := "const a = 1; fn f("
    let wanted := Fault.misread (.expected (.described "parameter name") none) ⟨1, 18⟩
    (5 * (Token.scan whole).1.length < 60 ∧ program 90 whole = program 60 whole ∧
      (program 60 whole).2 = none ∧ (Token.scan whole).2 = none ∧
      ∃ items last, Readings 60 (Stream.ofSource whole) items last ∧
        items.map (·.1) = (program 60 whole).1 ∧
        (Token.scan whole).1 = (items.map (·.2)).flatten) ∧
    (program 60 broken).2 = some wanted ∧ (wanted.kind = .reading ∨ wanted.kind = .digits ∨
      wanted = .overflow ∧ 60 ≤ 5 * (Token.scan broken).1.length) := by
  intro whole broken wanted
  have hdepth : 5 * (Token.scan whole).1.length < 60 := by
    dsimp only [whole]
    cbv
  have hnone : (program 60 whole).2 = none := by
    dsimp only [whole]
    cbv
  have hfault : (program 60 broken).2 = some wanted := by
    dsimp only [broken, wanted]
    cbv
  obtain ⟨hsame, -, items, last, hreadings, hnodes, htokens, hended⟩ := program_reads_all 60 whole
  obtain ⟨hpending, hscan⟩ := hended hnone
  rw [hpending, List.append_nil] at htokens
  have hdeeper : program 90 whole = program 60 whole := hsame 90 hdepth (by decide)
  exact ⟨⟨hdepth, hdeeper, hnone, hscan, items, last, hreadings, hnodes, htokens⟩, hfault,
    (program_reads_all 60 broken).2.1 wanted hfault⟩

end Scriptlet.Grammar
