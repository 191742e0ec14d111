import Scriptlet.Proofs.Grammar.Layout
import Scriptlet.Proofs.Grammar.Progress
import Scriptlet.Proofs.Token.Firm
import Scriptlet.Proofs.Token.Join

/-!
# Programs one behind the other

Semicolons may be left out, so a declaration ends wherever the reading of its last expression stops.
It stops before the next declaration: no construct goes on with a keyword that a declaration begins
with (`readersFirm`). The constructs are taken one by one, as in `Grammar.Progress`. An instruction
and a declaration ask for such keywords themselves, but only at their beginning, where there is a
token to look at.

* `Readings.goesOn` : declarations that are read to the end of a text are read in the same way if
  others follow.
* `program_joined` : two texts that can be read give, with a newline between them, the declarations
  of both.
-/

namespace Scriptlet.Grammar

open Token.Pattern Reader

variable {us : List Token} {s : Stream}

/-! ## Parts of functions -/

theorem integerOf_firm (text : String) : Firm us (integerOf text) := by
  unfold integerOf
  dsimp only
  split
  · exact .pure _
  · exact .throw _

theorem param_firm (found : List Param) : Firm us (param found) := by
  refine (skips_firm (by decide)).next fun isRest => (expectAs_firm _ _).next fun name => ?_
  have finish : Firm us (do separator (punct ")"); return (⟨name.text, isRest⟩ : Param)) :=
    (separator_firm (by decide)).next fun _ => .pure _
  have checked : Firm us (do
      if isRest then
        unless ← sees (punct ")") do fail .restNotLast
      separator (punct ")")
      return (⟨name.text, isRest⟩ : Param)) := by
    refine .ite (fun s => ?_) finish
    refine (sees_agrees_inner (by decide) s).next fun _ _ => .ite (finish s) ?_
    exact (fail_firm _).next (fun _ => finish) s
  exact .ite ((Firm.throw _).next fun _ => checked) checked

theorem params_firm : Firm us params :=
  (expect_firm _).next fun _ => listUntil_firm (by decide) param_firm

section

variable {expression instruction conditional declaration operand primary : Reader Node}
  {chain : Nat → Reader Node}

theorem args_firm (he : Firm us expression) : Firm us (args expression) :=
  (expect_firm _).next fun _ => commaList_firm (by decide) he

theorem returnStatement_firm (he : Firm us expression) : Firm us (returnStatement expression) := by
  refine (expect_firm _).next fun _ s => ?_
  have ends : Agrees us s (sees (punct "\x7d") <||> sees (punct ";")) :=
    or_agrees (sees_agrees_inner (by decide) s) (sees_agrees_inner (by decide) s)
  have finish : ∀ value : Node, Firm us (do let _ ← accept (punct ";"); return value) :=
    fun value => (accept_firm (by decide)).next fun _ => .pure value
  refine ends.next fun _ _ => .ite (finish _ s) ?_
  exact he.next finish s

theorem bodyUntilBrace_firm (he : Firm us expression) (hi : Firm us instruction) :
    ∀ (bound bound' : List Token) (found : List Node) (s : Stream), bound.length ≤ bound'.length →
      FirmAt us s (bodyUntilBrace expression instruction bound found)
        (bodyUntilBrace expression instruction bound' found)
  | bound, bound', found, s, hb => by
    unfold bodyUntilBrace
    refine (skips_firm (by decide) s).bind fun _ s₁ _ => .ite (Firm.pure _ s₁) ?_
    refine (sees_agrees_inner (by decide) s₁).next fun _ _ => .ite ?_ ?_
    · refine (returnStatement_firm he).next (fun value => ?_) s₁
      refine (skips_firm (by decide)).next fun _ => .ite (.pure _) ?_
      exact (fail_firm _).next fun _ => .pure _
    · refine (hi s₁).bind fun node s₂ _ => ?_
      cases bound with
      | nil => exact .throw _
      | cons first bound =>
        cases bound' with
        | nil => cases hb
        | cons first' bound' =>
          exact bodyUntilBrace_firm he hi bound bound' _ s₂ (Nat.le_of_succ_le_succ hb)

theorem functionBody_firm (he : Firm us expression) (hi : Firm us instruction) :
    Firm us (functionBody expression instruction) := by
  refine (skips_firm (by decide)).next fun _ => .ite (he.next fun _ => .pure _) ?_
  refine (expectAs_firm _ _).next fun _ s => pending_firm fun bound bound' hb => ?_
  exact bodyUntilBrace_firm he hi bound bound' [] s hb

theorem functionExpr_firm (he : Firm us expression) (hi : Firm us instruction) :
    Firm us (functionExpr expression instruction) := by
  refine (expect_firm _).next fun _ => (accept_firm (by decide)).next fun _ => ?_
  exact params_firm.next fun _ => (functionBody_firm he hi).next fun _ => .pure _

/-! ## Declarations -/

theorem functionDecl_firm (he : Firm us expression) (hi : Firm us instruction)
    (isExported : Bool) : Firm us (functionDecl expression instruction isExported) := by
  refine (expect_firm _).next fun _ => (expectAs_firm _ _).next fun _ => ?_
  exact params_firm.next fun _ => (functionBody_firm he hi).next fun _ => .pure _

theorem variableDecl_firm (he : Firm us expression) (isExported : Bool) :
    Firm us (variableDecl expression isExported) := by
  refine advance_firm.next fun _ => (expectAs_firm _ _).next fun _ => ?_
  exact (expect_firm _).next fun _ => he.next fun _ => .pure _

theorem destructuring_firm (he : Firm us expression) : Firm us (destructuring expression) := by
  refine advance_firm.next fun _ => (expect_firm _).next fun _ => ?_
  refine (commaList_firm (by decide) ((expectAs_firm _ _).next fun _ => .pure _)).next fun _ => ?_
  exact (expect_firm _).next fun _ => he.next fun _ => .pure _

theorem terminated_firmAt (h : FirmAt us s declaration declaration) :
    FirmAt us s (terminated declaration) (terminated declaration) :=
  h.bind fun node s' _ => (accept_firm (by decide)).next (fun _ => .pure node) s'

/-- An item of a list that the end of the text would break off. -/
theorem unlessFinished_firm {item : Reader Node} (h : Firm us item) (problem : Problem) :
    Firm us (do
      if ← finished then fail problem
      item) := by
  rw [finished, bind_assoc]
  refine peek_firm ?_ fun _ => h
  intro s node s' h
  obtain ⟨ended, s₁, hended, hnode⟩ := bind_eq_ok h
  cases hended
  obtain ⟨_, s₂, hfail, -⟩ := bind_eq_ok hnode
  exact fail_ne_ok hfail

theorem moduleDecl_firm (hd : Firm us declaration) (isExported : Bool) :
    Firm us (moduleDecl declaration isExported) := by
  refine (expect_firm _).next fun _ => (expectAs_firm _ _).next fun name => ?_
  have item := unlessFinished_firm (fun s => terminated_firmAt (hd s))
    (.unterminatedModule name.text)
  exact (expect_firm _).next fun _ =>
    (listUntil_firm (by decide) fun _ => item).next fun _ => .pure _

/-! ## Statements -/

theorem block_firm (hi : Firm us instruction) : Firm us (block instruction) :=
  (expectAs_firm _ _).next fun _ => listUntil_firm (by decide) fun _ => unlessFinished_firm hi _

theorem conditionalOf_firm (he : Firm us expression) (hi : Firm us instruction)
    (hc : Firm us conditional) : Firm us (conditionalOf expression instruction conditional) := by
  refine (expect_firm _).next fun _ => he.next fun _ => (block_firm hi).next fun _ => ?_
  refine (skips_firm (by decide)).next fun _ => .ite (fun s => ?_) (.pure _)
  refine (sees_agrees_inner (by decide) s).next fun _ _ => .ite ?_ ?_
  · exact hc.next (fun _ => .pure _) s
  · exact (block_firm hi).next (fun _ => .pure _) s

/-! ## Expressions -/

/-- No keyword that begins a declaration is an operator. -/
theorem nextOperator_agrees (s : Stream) : Agrees us s nextOperator := by
  let sign (o : Option Token) : Option Operator := o.bind fun t =>
    if t.kind = .op ∨ t.kind = .keyword then Operator.ofSign? t.text else none
  have heq : nextOperator = (do return sign (← peek 0)) := by
    unfold nextOperator
    congr 1
    funext o
    cases o <;> rfl
  have hsign : ∀ u : Token, u.Opens → sign (some u) = none := by
    intro u hu
    have hnone : ∀ text ∈ Token.openers, Operator.ofSign? text = none := by decide
    simp [sign, hnone u.text hu.text]
  rw [heq]
  exact peek_map_agrees hsign (Nat.zero_le _)

theorem climb_firm (hc : ∀ least, Firm us (chain least)) (least : Nat) :
    ∀ (bound bound' : List Token) (left : Node) (s : Stream), bound.length ≤ bound'.length →
      FirmAt us s (climb chain least bound left) (climb chain least bound' left)
  | bound, bound', left, s, hb => by
    unfold climb
    refine (nextOperator_agrees s).next fun operator _ => ?_
    cases operator with
    | none => exact Firm.pure _ s
    | some operator =>
      refine .ite (Firm.pure _ s) ((advance_firm s).bind fun sign s₁ _ => ?_)
      refine (hc _ s₁).bind fun right s₂ _ => ?_
      cases bound with
      | nil => exact .throw _
      | cons first bound =>
        cases bound' with
        | nil => cases hb
        | cons first' bound' =>
          exact climb_firm hc least bound bound' _ s₂ (Nat.le_of_succ_le_succ hb)

theorem application?_firm (he : Firm us expression) (node : Node) :
    Firm us (application? expression node) := by
  intro s
  refine (sees_agrees_inner (by decide) s).next fun called hcalled => ?_
  cases called with
  | true =>
    obtain ⟨u, rest, hs, -⟩ := (sees_eq_ok hcalled).2 rfl
    have first : 0 < s.pending.length := by simp [hs]
    refine (peek_agrees first).next fun _ _ => ?_
    exact (args_firm he).next (fun _ => .pure _) s
  | false =>
    refine (sees_agrees_inner (by decide) s).next fun _ _ => .ite ?_ ?_
    · refine advance_firm.next (fun dot => peek_firm (fun _ _ _ => fail_ne_ok) fun t => ?_) s
      exact .ite (advance_firm.next fun _ => .pure _) (fail_firm _)
    · refine (sees_agrees_inner (by decide) s).next fun _ _ => .ite ?_ (Firm.pure _ s)
      have finish : Firm us (do
          let colons ← advance
          let member ← expectAs (any .name) (.described "module member")
          return some (Node.moduleAccess colons.line node member.text)) :=
        advance_firm.next fun _ => (expectAs_firm _ _).next fun _ => .pure _
      exact .ite (finish s) ((fail_firm _).next (fun _ => finish) s)

theorem applications_firm (he : Firm us expression) :
    ∀ (bound bound' : List Token) (node : Node) (s : Stream), bound.length ≤ bound'.length →
      FirmAt us s (applications expression bound node) (applications expression bound' node)
  | bound, bound', node, s, hb => by
    unfold applications
    refine (application?_firm he node s).bind fun o s₁ _ => ?_
    cases o with
    | none => exact Firm.pure _ s₁
    | some next =>
      cases bound with
      | nil => exact .throw _
      | cons first bound =>
        cases bound' with
        | nil => cases hb
        | cons first' bound' =>
          exact applications_firm he bound bound' next s₁ (Nat.le_of_succ_le_succ hb)

theorem applied_firm (he : Firm us expression) (node : Node) :
    Firm us (applied expression node) :=
  fun s => pending_firm fun bound bound' hb => applications_firm he bound bound' node s hb

theorem property_firm (he : Firm us expression) : Firm us (property expression) := by
  refine peek_firm (fun _ _ _ => fail_ne_ok) fun t => .ite ?_ (fail_firm _)
  exact advance_firm.next fun _ => (expect_firm _).next fun _ => he.next fun _ => .pure _

theorem objectLiteral_firm (he : Firm us expression) : Firm us (objectLiteral expression) :=
  (expect_firm _).next fun _ =>
    (commaList_firm (by decide) (property_firm he)).next fun _ => .pure _

theorem arrayLiteral_firm (he : Firm us expression) : Firm us (arrayLiteral expression) :=
  (expect_firm _).next fun _ => (commaList_firm (by decide) he).next fun _ => .pure _

theorem parenthesised_firm (he : Firm us expression) : Firm us (parenthesised expression) :=
  advance_firm.next fun _ => he.next fun node => (expect_firm _).next fun _ => .pure node

theorem primaryOf_firm (he : Firm us expression) (hi : Firm us instruction) :
    Firm us (primaryOf expression instruction) := by
  refine peek_firm (fun _ _ _ => fail_ne_ok) fun t => ?_
  have taken : ∀ node : Node, Firm us (do let _ ← advance; return node) :=
    fun _ => advance_firm.next fun _ => .pure _
  dsimp only
  cases t.kind with
  | integer => exact advance_firm.next fun _ => (integerOf_firm _).next fun _ => .pure _
  | float | string | char | name => exact taken _
  | keyword =>
    refine .ite (taken _) (.ite (taken _) (.ite ?_ (fail_firm _)))
    exact functionExpr_firm he hi
  | punct =>
    refine .ite (parenthesised_firm he) (.ite (objectLiteral_firm he) ?_)
    exact .ite (arrayLiteral_firm he) (fail_firm _)
  | op => exact fail_firm _

theorem operandOf_firm (he : Firm us expression) (ho : Firm us operand) (hp : Firm us primary) :
    Firm us (operandOf expression operand primary) := by
  intro s
  refine (sees_agrees_inner (by decide) s).next fun _ _ => .ite ?_ ?_
  · refine (advance_firm s).bind fun minus s₁ _ => ?_
    refine (sees_agrees_inner (by decide) s₁).next fun _ _ => .ite ?_ ?_
    · exact advance_firm.next (fun _ => (integerOf_firm _).next fun _ => applied_firm he _) s₁
    refine (sees_agrees_inner (by decide) s₁).next fun _ _ => .ite ?_ ?_
    · exact advance_firm.next (fun _ => applied_firm he _) s₁
    · exact ho.next (fun _ => .pure _) s₁
  · exact hp.next (fun _ => applied_firm he _) s

theorem chainOf_firm (hc : ∀ least, Firm us (chain least)) (ho : Firm us operand) (least : Nat) :
    Firm us (chainOf chain operand least) := by
  refine ho.next fun left s => pending_firm fun bound bound' hb => ?_
  exact climb_firm hc least bound bound' left s hb

theorem expressionOf_firm (he : Firm us expression) (hc : ∀ least, Firm us (chain least)) :
    Firm us (expressionOf expression chain) := by
  refine (hc 1).next fun left s => ?_
  have finish : Firm us (do let t ← advance; return Node.reassignment t.line left (← expression)) :=
    advance_firm.next fun _ => he.next fun _ => .pure _
  refine (sees_agrees_inner (by decide) s).next fun _ _ => .ite ?_ (Firm.pure _ s)
  exact .ite (finish s) ((fail_firm _).next (fun _ => finish) s)

/-- The first token of an instruction or declaration may be any keyword. -/
theorem seesVariable_agrees (hs : s.pending ≠ []) : Agrees us s seesVariable :=
  or_agrees (sees_agrees hs _) (sees_agrees hs _)

theorem instructionOf_firmAt (he : Firm us expression) (hi : Firm us instruction)
    (hc : Firm us conditional) (hd : Firm us declaration) (hs : s.pending ≠ []) :
    FirmAt us s (instructionOf expression instruction conditional declaration)
      (instructionOf expression instruction conditional declaration) := by
  have second : 1 ≤ s.pending.length := List.length_pos_iff.mpr hs
  refine terminated_firmAt ((seesVariable_agrees hs).next fun _ _ => .ite ?_ ?_)
  · refine (check_agrees (by decide) second).next fun _ _ => .ite ?_ ?_
    · exact destructuring_firm he s
    · exact variableDecl_firm he false s
  have names : Agrees us s (sees (keyword "fn") <&&> check (any .name) 1) :=
    and_agrees (sees_agrees hs _) (check_agrees (by decide) second)
  refine names.next fun _ _ => .ite (functionDecl_firm he hi false s) ?_
  refine (sees_agrees hs _).next fun _ _ => .ite (moduleDecl_firm hd false s) ?_
  refine (sees_agrees hs _).next fun _ _ => .ite (hc s) ?_
  refine (sees_agrees hs _).next fun _ _ => .ite (fail_firm _ s) ?_
  exact (sees_agrees hs _).next fun _ _ => .ite (fail_firm _ s) (he s)

theorem declarationOf_firmAt {d : Nat} (hes : Steady d 4 1 expression expression)
    (his : Steady d 5 1 instruction instruction) (hds : Steady d 1 1 declaration declaration)
    (he : Firm us expression) (hi : Firm us instruction) (hd : Firm us declaration)
    (hs : s.pending ≠ []) :
    FirmAt us s (declarationOf expression instruction declaration)
      (declarationOf expression instruction declaration) := by
  refine (skips_firmAt (sees_agrees hs _)).bind fun isExported s₁ _ => ?_
  -- behind `export` the text may have ended, but then nothing is declared
  refine firm_of_steady (d := d) (n := 0) ?_ ?_ s₁
  · refine (sees_steady _).next fun _ => .ite (functionDecl_steady hes his isExported) ?_
    refine seesVariable_steady.next fun _ => .ite ?_ ?_
    · refine (check_steady _ _).next fun _ => .ite (fail_bind _ _ _) ?_
      exact variableDecl_steady hes isExported
    exact (sees_steady _).next fun _ => .ite (moduleDecl_steady hds isExported) (fail_steady _)
  · intro s hs
    have second : 1 ≤ s.pending.length := List.length_pos_iff.mpr hs
    refine (sees_agrees hs _).next fun _ _ => .ite (functionDecl_firm he hi isExported s) ?_
    refine (seesVariable_agrees hs).next fun _ _ => .ite ?_ ?_
    · have finish := variableDecl_firm he isExported
      refine (check_agrees (by decide) second).next fun _ _ => ?_
      exact .ite ((fail_firm _).next (fun _ => finish) s) (finish s)
    exact (sees_agrees hs _).next fun _ _ => .ite (moduleDecl_firm hd isExported s) (fail_firm _ s)

end

/-! ## The constructs that contain themselves -/

/-- The readers of a nesting depth stop before the next declaration. -/
structure ReadersFirm (us : List Token) (depth : Nat) : Prop where
  expression : Firm us (expression depth)
  chain : ∀ least, Firm us (chain depth least)
  operand : Firm us (operand depth)
  primary : Firm us (primary depth)
  instruction : Firm us (instruction depth)
  conditional : Firm us (conditional depth)
  declaration : Firm us (declaration depth)

theorem readersFirm (us : List Token) : ∀ depth, ReadersFirm us depth
  | 0 => ⟨.throw _, fun _ => .throw _, .throw _, .throw _, .throw _, .throw _, .throw _⟩
  | depth + 1 =>
    have ih := readersFirm us depth
    have steady := readersSteady (Nat.le_refl depth)
    have deeper := readersSteady (Nat.le_refl (depth + 1))
    { expression := expressionOf_firm ih.expression ih.chain
      chain := chainOf_firm ih.chain ih.operand
      operand := operandOf_firm ih.expression ih.operand ih.primary
      primary := primaryOf_firm ih.expression ih.instruction
      instruction := firm_of_steady deeper.instruction fun _ hs =>
        instructionOf_firmAt ih.expression ih.instruction ih.conditional ih.declaration hs
      conditional := conditionalOf_firm ih.expression ih.instruction ih.conditional
      declaration := firm_of_steady deeper.declaration fun _ hs =>
        declarationOf_firmAt steady.expression steady.instruction steady.declaration
          ih.expression ih.instruction ih.declaration hs }

theorem root_firm (us : List Token) (depth : Nat) : Firm us (root depth) :=
  fun s => terminated_firmAt ((readersFirm us depth).declaration s)

/-! ## What a declaration begins with -/

/-- The next token is a keyword that begins a declaration, if it is one of those asked for. -/
theorem opens_of_sees {text : String} {seen : Bool} {s' : Stream}
    (h : sees (keyword text) s = .ok seen s') (ht : text ∈ Token.openers) :
    s' = s ∧ (seen = true → ∃ u rest, s.pending = u :: rest ∧ u.Opens) := by
  obtain ⟨hsame, hseen⟩ := sees_eq_ok h
  refine ⟨hsame, ?_⟩
  intro htrue
  obtain ⟨u, rest, hp, haccepts⟩ := hseen htrue
  have hu : u.kind = .keyword ∧ text = u.text := by
    simpa [Token.Pattern.accepts, keyword] using haccepts
  exact ⟨u, rest, hp, hu.1, hu.2 ▸ ht⟩

/-- A declaration begins with one of the keywords. -/
theorem opens_of_declarationOf {expression instruction declaration : Reader Node} {node : Node}
    {s' : Stream} (h : declarationOf expression instruction declaration s = .ok node s') :
    ∃ u rest, s.pending = u :: rest ∧ u.Opens := by
  obtain ⟨isExported, s₁, hskips, h₁⟩ := bind_eq_ok h
  obtain ⟨o, s₂, haccept, hsome⟩ := bind_eq_ok hskips
  obtain ⟨exported, s₃, hexport, htaken⟩ := bind_eq_ok haccept
  obtain ⟨rfl, hopens⟩ := opens_of_sees hexport (by decide)
  cases exported with
  | true => exact hopens rfl
  | false =>
    cases htaken
    cases hsome
    obtain ⟨isFunction, s₄, hfn, h₂⟩ := bind_eq_ok h₁
    obtain ⟨rfl, hopens⟩ := opens_of_sees hfn (by decide)
    cases isFunction with
    | true => exact hopens rfl
    | false =>
      obtain ⟨isVariable, s₅, hvariable, h₃⟩ := bind_eq_ok h₂
      obtain ⟨isConst, s₆, hconst, hvar⟩ := bind_eq_ok hvariable
      obtain ⟨rfl, hopens⟩ := opens_of_sees hconst (by decide)
      cases isConst with
      | true => exact hopens rfl
      | false =>
        obtain ⟨rfl, hopens⟩ := opens_of_sees hvar (by decide)
        cases isVariable with
        | true => exact hopens rfl
        | false =>
          obtain ⟨isModule, s₇, hmodule, h₄⟩ := bind_eq_ok h₃
          obtain ⟨rfl, hopens⟩ := opens_of_sees hmodule (by decide)
          cases isModule with
          | true => exact hopens rfl
          | false => exact absurd h₄ fail_ne_ok

theorem opens_of_root {depth : Nat} {node : Node} {s' : Stream}
    (h : root depth s = .ok node s') : ∃ u rest, s.pending = u :: rest ∧ u.Opens := by
  obtain ⟨_, s₁, hdeclaration, -⟩ := bind_eq_ok h
  cases depth with
  | zero => cases hdeclaration
  | succ depth => exact opens_of_declarationOf hdeclaration

/-! ## Whole programs -/

namespace Readings

variable {depth : Nat} {s s' t : Stream} {items : List (Node × List Token)}

/-- Declarations that are read to the end of a text are read in the same way if others follow. -/
theorem goesOn (h : Readings depth s items s') (ht : s.GoesOn us t) :
    ∃ t', Readings depth t items t' ∧ s'.GoesOn us t' := by
  induction h generalizing t with
  | done s => exact ⟨t, .done t, ht⟩
  | @more s s₁ s₂ node taken items read front some rest ih =>
    obtain ⟨t₁, hread, ht₁⟩ := root_firm us depth s t ht node s₁ read
    obtain ⟨t₂, hreadings, ht₂⟩ := ih ht₁
    refine ⟨t₂, .more hread ?_ some hreadings, ht₂⟩
    rw [ht.pending, front, List.append_assoc, ← ht₁.pending]

/-- From tokens that stand elsewhere the same declarations are read, at other lines. -/
theorem moved (h : Readings depth s items s') (ht : s.unplaced = t.unplaced) :
    ∃ items' t', Readings depth t items' t' ∧ s'.unplaced = t'.unplaced ∧
      items'.map (·.1.unlined) = items.map (·.1.unlined) := by
  induction h generalizing t with
  | done s => exact ⟨[], t, .done t, ht, rfl⟩
  | @more s s₁ s₂ node taken items read front some rest ih =>
    rcases Erasure.cases_of_outcome_eq ((root_blind depth).eq_of_eq ht) with
      ⟨_, _, node', t₁, hr, hread, hnode, ht₁⟩ | ⟨_, _, _, _, hr, -, -, -⟩
    · rw [read] at hr
      cases hr
      obtain ⟨items', t₂, hreadings, ht₂, hnodes⟩ := ih ht₁
      obtain ⟨taken', front', hlength⟩ :=
        ((root_steady (Nat.le_refl depth) t).took node' t₁ hread).tokens
      refine ⟨(node', taken') :: items', t₂, ?_, ht₂, ?_⟩
      · exact .more hread front' (List.ne_nil_of_length_pos hlength) hreadings
      · rw [List.map_cons, List.map_cons, hnodes, hnode]
    · rw [read] at hr
      cases hr

/-- A text of declarations begins with one, if it has any token. -/
theorem opening (h : Readings depth s items s') (hend : s'.pending = []) :
    ∀ u ∈ s.pending.head?, u.Opens := by
  intro u hu
  cases h with
  | done s =>
    rw [hend] at hu
    cases hu
  | more read front some rest =>
    obtain ⟨v, tail, hp, hv⟩ := opens_of_root read
    rw [hp] at hu
    cases hu
    exact hv

theorem append {items' : List (Node × List Token)} {s'' : Stream} (h : Readings depth s items s')
    (h' : Readings depth s' items' s'') : Readings depth s (items ++ items') s'' := by
  induction h with
  | done s => exact h'
  | more read front some _ ih => exact .more read front some (ih h')

/-- Declarations that are read one after the other up to the end of the text. -/
theorem rootsFrom_eq (h : Readings depth s items s') (ended : finished s' = .ok true s') :
    ∀ (bound : List Token) (found : List Node), s.pending.length ≤ bound.length →
      rootsFrom depth bound found s = (found.reverse ++ items.map (·.1), none, s') := by
  induction h with
  | done s =>
    intro bound found _
    rw [rootsFrom, ended]
    simp
  | @more s s₁ s₂ node taken items read front some _ ih =>
    intro bound found hb
    have hcontinues : finished s = .ok false s := by
      obtain ⟨u, rest, hp, -⟩ := opens_of_root read
      have hpeek : peek 0 s = .ok (u : Option Token) s := by rw [peek, hp]; rfl
      rw [finished, bind_ok hpeek]
      rfl
    have hlength := List.length_pos_iff.mpr some
    rw [front, List.length_append] at hb
    rw [rootsFrom, hcontinues]
    dsimp only
    rw [read]
    cases bound with
    | nil =>
      rw [List.length_nil] at hb
      omega
    | cons first bound =>
      rw [List.length_cons] at hb
      dsimp only
      rw [ih ended bound (node :: found) (by omega)]
      simp

end Readings

theorem finished_of_end {s : Stream} (hp : s.pending = []) (hf : s.failure = none) :
    finished s = .ok true s := by
  rw [finished, bind_ok (peek_of_failure_none hf 0), hp]
  rfl

/-- A text that can be read is read declaration by declaration to its end. -/
theorem readings_of_program {depth : Nat} {source : String} (h : (program depth source).2 = none) :
    ∃ items last, Readings depth (Stream.ofSource source) items last ∧
      items.map (·.1) = (program depth source).1 ∧ last.pending = [] ∧ last.failure = none := by
  let s := Stream.ofSource source
  obtain ⟨items, last, hreadings, hnodes, hhalts⟩ :=
    rootsFrom_readings depth s.pending [] s (Nat.le_refl _)
  have hended : Halts depth last none := by
    rw [← h]
    exact hhalts
  cases hended with
  | ended hfinished =>
    obtain ⟨hpending, hfailure⟩ := end_of_finished hfinished
    exact ⟨items, last, hreadings, hnodes.symm, hpending, hfailure⟩

/-- Two texts that can be read can be read with a newline between them, and give the declarations of
the one and then those of the other, which stand at other lines. -/
theorem program_joined {depth : Nat} {source source' : String}
    (h : (program depth source).2 = none) (h' : (program depth source').2 = none) :
    ∃ nodes, program depth (source ++ "\n" ++ source') =
        ((program depth source).1 ++ nodes, none) ∧
      nodes.map Node.unlined = (program depth source').1.map Node.unlined := by
  obtain ⟨items, last, hread, hnodes, hpending, hfailure⟩ := readings_of_program h
  obtain ⟨items', last', hread', hnodes', hpending', hfailure'⟩ := readings_of_program h'
  have hscan : (Token.scan source).2 = none := hread.took.failure.symm.trans hfailure
  have hscan' : (Token.scan source').2 = none := hread'.took.failure.symm.trans hfailure'
  obtain ⟨moved, hjoined, hmoved⟩ := Token.scan_joined hscan hscan'
  have hopening : ∀ u ∈ moved.head?, u.Opens := by
    intro u hu
    have hhead :
        moved.head?.map Token.unplaced = (Token.scan source').1.head?.map Token.unplaced := by
      rw [← List.head?_map, hmoved, List.head?_map]
    rw [Option.mem_def.mp hu] at hhead
    obtain ⟨v, hv, heq⟩ := Option.map_eq_some_iff.mp hhead.symm
    exact (hread'.opening hpending' v hv).moved heq.symm
  have hboth : Stream.ofSource (source ++ "\n" ++ source') =
      ⟨(Token.scan source).1 ++ moved, none, none⟩ := by rw [Stream.ofSource, hjoined]
  -- the first text is read as if it stood alone
  have hgoes : (Stream.ofSource source).GoesOn moved
      ⟨(Token.scan source).1 ++ moved, none, none⟩ := ⟨rfl, hopening, hscan, rfl⟩
  obtain ⟨t₁, hfirst, ht₁⟩ := hread.goesOn hgoes
  -- then comes the second one, from tokens that stand elsewhere and behind a token already taken
  have hplaces : (Stream.ofSource source').unplaced = Stream.unplaced ⟨moved, none, none⟩ := by
    show (⟨_, Option.map _ (Token.scan source').2, _⟩ : Stream) = ⟨_, _, _⟩
    rw [hscan', hmoved]
    rfl
  obtain ⟨found, rest, hfound, hrest, hsame⟩ := hread'.moved hplaces
  have hagain : Stream.GoesOn [] ⟨moved, none, none⟩ t₁ := by
    refine ⟨?_, by simp, rfl, ht₁.second⟩
    rw [ht₁.pending, hpending, List.nil_append, List.append_nil]
  obtain ⟨t₂, hsecond, ht₂⟩ := hfound.goesOn hagain
  have hnone : rest.pending = [] := by
    have hmap : rest.pending.map Token.unplaced = last'.pending.map Token.unplaced :=
      congrArg (·.pending) hrest.symm
    rw [hpending'] at hmap
    exact List.map_eq_nil_iff.mp hmap
  have hended : finished t₂ = .ok true t₂ := by
    refine finished_of_end ?_ ht₂.second
    rw [ht₂.pending, hnone, List.append_nil]
  have hroots := (hfirst.append hsecond).rootsFrom_eq hended _ [] (Nat.le_refl _)
  refine ⟨found.map (·.1), ?_, ?_⟩
  · rw [program, roots, hboth, hroots]
    simp [hnodes]
  · rw [← hnodes', List.map_map, List.map_map]
    exact hsame

end Scriptlet.Grammar
