import Scriptlet.Node.Grammar

/-!
# What reading is made of

However a construct is read, all that its reader ever does to a stream is to look at the tokens to
come, to take the next one, and to report a problem at it. Only a list of parameters does more: it
remembers the names so far, and the problem of a repeated one is reported behind it. `Composed r`
says that a reader is put together from such actions, and `readersComposed` that the seven readers
of the grammar are. What holds of the actions holds of all constructs by induction on how their
readers are put together, without a look at any construct.
-/

namespace Scriptlet.Grammar

open Token Token.Pattern Reader

/-- The reader is put together from looks at the tokens to come, tokens that are taken, problems at
the next token, lists of parameters, and faults that are no problem of the text. -/
inductive Composed : {α : Type} → Reader α → Prop where
  | pure {α : Type} (a : α) : Composed (Pure.pure a)
  | bind {α β : Type} {r : Reader α} {next : α → Reader β} (h : Composed r)
      (hn : ∀ a, Composed (next a)) : Composed (r >>= next)
  | peek (k : Nat) : Composed (Reader.peek k)
  | pending : Composed Reader.pending
  | advance : Composed Reader.advance
  | fail {α : Type} (problem : Problem) : Composed (Reader.fail problem : Reader α)
  | throw {α : Type} {f : Fault} (h : f.kind ≠ .reading) :
      Composed (MonadExcept.throw f : Reader α)
  | params : Composed Grammar.params

namespace Composed

variable {α β : Type}

theorem ite {c : Prop} [Decidable c] {r r' : Reader α} (h : Composed r) (h' : Composed r') :
    Composed (if c then r else r') := by
  split
  · exact h
  · exact h'

theorem overflow : Composed (MonadExcept.throw .overflow : Reader α) := throw (by decide)

/-! ## Single tokens -/

theorem finished : Composed Reader.finished := (peek 0).bind fun _ => pure _

theorem check (p : Pattern) (k : Nat) : Composed (Reader.check p k) := (peek k).bind fun _ => pure _

theorem sees (p : Pattern) : Composed (Reader.sees p) := check p 0

theorem accept (p : Pattern) : Composed (Reader.accept p) :=
  (sees p).bind fun _ => ite (advance.bind fun t => pure (some t)) (pure none)

theorem skips (p : Pattern) : Composed (Reader.skips p) := (accept p).bind fun _ => pure _

theorem expectAs (p : Pattern) (wanted : Wanted) : Composed (Reader.expectAs p wanted) :=
  (sees p).bind fun _ => ite advance ((peek 0).bind fun _ => fail _)

theorem expect (p : Pattern) : Composed (Reader.expect p) := expectAs p p.wanted

theorem or {a b : Reader Bool} (ha : Composed a) (hb : Composed b) : Composed (a <||> b) := by
  refine ha.bind fun x => ?_
  cases x with
  | true => exact pure true
  | false => exact hb

theorem and {a b : Reader Bool} (ha : Composed a) (hb : Composed b) : Composed (a <&&> b) := by
  refine ha.bind fun x => ?_
  cases x with
  | true => exact hb
  | false => exact pure false

/-! ## Lists -/

theorem itemsUntil {close : Pattern} {item : List α → Reader α}
    (h : ∀ found, Composed (item found)) :
    ∀ (bound : List Token) (found : List α), Composed (Reader.itemsUntil close item bound found)
  | bound, found => by
    unfold Reader.itemsUntil
    refine (skips close).bind fun _ => ite (pure _) ((h found).bind fun a => ?_)
    cases bound with
    | nil => exact overflow
    | cons t bound => exact itemsUntil h bound (a :: found)

theorem listUntil {close : Pattern} {item : List α → Reader α}
    (h : ∀ found, Composed (item found)) : Composed (Reader.listUntil close item) :=
  pending.bind fun bound => itemsUntil h bound []

theorem separator (close : Pattern) : Composed (Reader.separator close) :=
  (sees close).bind fun _ => ite (pure _) ((expect _).bind fun _ => pure _)

theorem commaList {close : Pattern} {item : Reader α} (h : Composed item) :
    Composed (Reader.commaList close item) :=
  listUntil fun _ => h.bind fun a => (separator close).bind fun _ => pure a

end Composed

/-! ## Parts of functions -/

theorem integerOf_composed (text : String) : Composed (integerOf text) := by
  unfold integerOf
  dsimp only
  split
  · exact .pure _
  · exact .throw nofun

section

variable {expression instruction conditional declaration operand primary : Reader Node}
  {chain : Nat → Reader Node}

theorem args_composed (he : Composed expression) : Composed (args expression) :=
  (Composed.expect _).bind fun _ => .commaList he

theorem returnStatement_composed (he : Composed expression) :
    Composed (returnStatement expression) := by
  have finish : ∀ value : Node, Composed (do let _ ← accept (punct ";"); return value) :=
    fun value => (Composed.accept _).bind fun _ => .pure value
  refine (Composed.expect _).bind fun _ => (Composed.or (.sees _) (.sees _)).bind fun _ => ?_
  dsimp only
  exact .ite (finish _) (he.bind finish)

theorem bodyUntilBrace_composed (he : Composed expression) (hi : Composed instruction) :
    ∀ (bound : List Token) (found : List Node),
      Composed (bodyUntilBrace expression instruction bound found)
  | bound, found => by
    unfold bodyUntilBrace
    refine (Composed.skips _).bind fun _ => .ite (.pure _) ?_
    refine (Composed.sees _).bind fun _ => .ite ?_ ?_
    · refine (returnStatement_composed he).bind fun value => (Composed.skips _).bind fun _ => ?_
      exact .ite (.pure _) ((Composed.fail _).bind fun _ => .pure _)
    · refine hi.bind fun node => ?_
      cases bound with
      | nil => exact .overflow
      | cons t bound => exact bodyUntilBrace_composed he hi bound (node :: found)

theorem functionBody_composed (he : Composed expression) (hi : Composed instruction) :
    Composed (functionBody expression instruction) :=
  (Composed.skips _).bind fun _ => .ite (he.bind fun _ => .pure _)
    ((Composed.expectAs _ _).bind fun _ => Composed.pending.bind fun bound =>
      bodyUntilBrace_composed he hi bound [])

theorem functionExpr_composed (he : Composed expression) (hi : Composed instruction) :
    Composed (functionExpr expression instruction) :=
  (Composed.expect _).bind fun _ => (Composed.accept _).bind fun _ =>
    Composed.params.bind fun _ => (functionBody_composed he hi).bind fun _ => .pure _

/-! ## Declarations -/

theorem functionDecl_composed (he : Composed expression) (hi : Composed instruction)
    (isExported : Bool) : Composed (functionDecl expression instruction isExported) :=
  (Composed.expect _).bind fun _ => (Composed.expectAs _ _).bind fun _ =>
    Composed.params.bind fun _ => (functionBody_composed he hi).bind fun _ => .pure _

theorem variableDecl_composed (he : Composed expression) (isExported : Bool) :
    Composed (variableDecl expression isExported) :=
  Composed.advance.bind fun _ => (Composed.expectAs _ _).bind fun _ =>
    (Composed.expect _).bind fun _ => he.bind fun _ => .pure _

theorem destructuring_composed (he : Composed expression) :
    Composed (destructuring expression) := by
  refine Composed.advance.bind fun _ => (Composed.expect _).bind fun _ => Composed.bind
    (.commaList ?_) fun _ => (Composed.expect _).bind fun _ => he.bind fun _ => .pure _
  exact (Composed.expectAs _ _).bind fun _ => .pure _

theorem terminated_composed (hd : Composed declaration) : Composed (terminated declaration) :=
  hd.bind fun node => (Composed.accept _).bind fun _ => .pure node

theorem moduleDecl_composed (hd : Composed declaration) (isExported : Bool) :
    Composed (moduleDecl declaration isExported) := by
  refine (Composed.expect _).bind fun _ => (Composed.expectAs _ _).bind fun _ =>
    (Composed.expect _).bind fun _ => Composed.bind (.listUntil fun _ => ?_) fun _ => .pure _
  exact Composed.finished.bind fun _ =>
    .ite ((Composed.fail _).bind fun _ => terminated_composed hd) (terminated_composed hd)

/-! ## Statements -/

theorem block_composed (hi : Composed instruction) : Composed (block instruction) :=
  (Composed.expectAs _ _).bind fun _ => .listUntil fun _ =>
    Composed.finished.bind fun _ => .ite ((Composed.fail _).bind fun _ => hi) hi

theorem conditionalOf_composed (he : Composed expression) (hi : Composed instruction)
    (hc : Composed conditional) : Composed (conditionalOf expression instruction conditional) := by
  refine (Composed.expect _).bind fun _ => he.bind fun _ => (block_composed hi).bind fun _ =>
    (Composed.skips _).bind fun _ => .ite ((Composed.sees _).bind fun _ => ?_) (.pure _)
  exact .ite (hc.bind fun _ => .pure _) ((block_composed hi).bind fun _ => .pure _)

theorem seesVariable_composed : Composed seesVariable := .or (.sees _) (.sees _)

/-! ## Expressions -/

theorem nextOperator_composed : Composed nextOperator := by
  refine (Composed.peek 0).bind fun t => ?_
  cases t with
  | none => exact .pure none
  | some t => exact .pure _

theorem climb_composed (hc : ∀ least, Composed (chain least)) (least : Nat) :
    ∀ (bound : List Token) (left : Node), Composed (climb chain least bound left)
  | bound, left => by
    unfold climb
    refine nextOperator_composed.bind fun operator => ?_
    cases operator with
    | none => exact .pure left
    | some operator =>
      refine .ite (.pure left) (Composed.advance.bind fun t => (hc _).bind fun right => ?_)
      cases bound with
      | nil => exact .overflow
      | cons _ bound => exact climb_composed hc least bound _

theorem application?_composed (he : Composed expression) (node : Node) :
    Composed (application? expression node) := by
  refine (Composed.sees _).bind fun _ => .ite ?_ ((Composed.sees _).bind fun _ => .ite ?_
    ((Composed.sees _).bind fun _ => .ite ?_ (.pure none)))
  · exact (Composed.peek 0).bind fun _ => (args_composed he).bind fun _ => .pure _
  · refine Composed.advance.bind fun _ => (Composed.peek 0).bind fun t => ?_
    cases t with
    | none => exact .fail _
    | some t => exact .ite (Composed.advance.bind fun _ => .pure _) (.fail _)
  · have finish : Composed (do
        let colons ← advance
        let member ← expectAs (any .name) (.described "module member")
        return some (Node.moduleAccess colons.line node member.text)) :=
      Composed.advance.bind fun _ => (Composed.expectAs _ _).bind fun _ => .pure _
    exact .ite finish ((Composed.fail _).bind fun _ => finish)

theorem applications_composed (he : Composed expression) :
    ∀ (bound : List Token) (node : Node), Composed (applications expression bound node)
  | bound, node => by
    unfold applications
    refine (application?_composed he node).bind fun next => ?_
    cases next with
    | none => exact .pure node
    | some next =>
      cases bound with
      | nil => exact .overflow
      | cons _ bound => exact applications_composed he bound next

theorem applied_composed (he : Composed expression) (node : Node) :
    Composed (applied expression node) :=
  Composed.pending.bind fun bound => applications_composed he bound node

theorem property_composed (he : Composed expression) : Composed (property expression) := by
  refine (Composed.peek 0).bind fun t => ?_
  cases t with
  | none => exact .fail _
  | some t =>
    refine .ite ?_ (.fail _)
    exact Composed.advance.bind fun _ => (Composed.expect _).bind fun _ => he.bind fun _ => .pure _

theorem objectLiteral_composed (he : Composed expression) : Composed (objectLiteral expression) :=
  (Composed.expect _).bind fun _ =>
    (Composed.commaList (property_composed he)).bind fun _ => .pure _

theorem arrayLiteral_composed (he : Composed expression) : Composed (arrayLiteral expression) :=
  (Composed.expect _).bind fun _ => (Composed.commaList he).bind fun _ => .pure _

theorem parenthesised_composed (he : Composed expression) : Composed (parenthesised expression) :=
  Composed.advance.bind fun _ => he.bind fun node => (Composed.expect _).bind fun _ => .pure node

theorem primaryOf_composed (he : Composed expression) (hi : Composed instruction) :
    Composed (primaryOf expression instruction) := by
  refine (Composed.peek 0).bind fun t => ?_
  cases t with
  | none => exact .fail _
  | some t =>
    obtain ⟨kind, text, position⟩ := t
    cases kind with
    | integer =>
      exact Composed.advance.bind fun _ => (integerOf_composed text).bind fun _ => .pure _
    | float | string | char | name => exact Composed.advance.bind fun _ => .pure _
    | keyword =>
      refine .ite ?_ (.ite ?_ (.ite (functionExpr_composed he hi) (.fail _)))
      · exact Composed.advance.bind fun _ => .pure _
      · exact Composed.advance.bind fun _ => .pure _
    | punct =>
      exact .ite (parenthesised_composed he) (.ite (objectLiteral_composed he)
        (.ite (arrayLiteral_composed he) (.fail _)))
    | op => exact .fail _

theorem operandOf_composed (he : Composed expression) (ho : Composed operand)
    (hp : Composed primary) : Composed (operandOf expression operand primary) := by
  refine (Composed.sees _).bind fun _ => .ite (Composed.advance.bind fun _ => ?_)
    (hp.bind fun node => applied_composed he node)
  refine (Composed.sees _).bind fun _ => .ite ?_ ((Composed.sees _).bind fun _ => .ite ?_ ?_)
  · exact Composed.advance.bind fun _ => (integerOf_composed _).bind fun _ => applied_composed he _
  · exact Composed.advance.bind fun _ => applied_composed he _
  · exact ho.bind fun _ => .pure _

theorem chainOf_composed (hc : ∀ least, Composed (chain least)) (ho : Composed operand)
    (least : Nat) : Composed (chainOf chain operand least) :=
  ho.bind fun left => Composed.pending.bind fun bound => climb_composed hc least bound left

theorem expressionOf_composed (he : Composed expression) (hc : ∀ least, Composed (chain least)) :
    Composed (expressionOf expression chain) := by
  refine (hc 1).bind fun left => (Composed.sees _).bind fun _ => .ite ?_ (.pure left)
  have finish : Composed (do
      let t ← advance
      return Node.reassignment t.line left (← expression)) :=
    Composed.advance.bind fun _ => he.bind fun _ => .pure _
  exact .ite finish ((Composed.fail _).bind fun _ => finish)

theorem instructionOf_composed (he : Composed expression) (hi : Composed instruction)
    (hc : Composed conditional) (hd : Composed declaration) :
    Composed (instructionOf expression instruction conditional declaration) := by
  refine terminated_composed (seesVariable_composed.bind fun _ => .ite ?_ ?_)
  · exact (Composed.check _ 1).bind fun _ =>
      .ite (destructuring_composed he) (variableDecl_composed he _)
  refine (Composed.and (.sees _) (.check _ 1)).bind fun _ => .ite ?_ ?_
  · exact functionDecl_composed he hi _
  refine (Composed.sees _).bind fun _ => .ite (moduleDecl_composed hd _) ?_
  refine (Composed.sees _).bind fun _ => .ite hc ?_
  refine (Composed.sees _).bind fun _ => .ite (.fail _) ?_
  exact (Composed.sees _).bind fun _ => .ite (.fail _) he

theorem declarationOf_composed (he : Composed expression) (hi : Composed instruction)
    (hd : Composed declaration) : Composed (declarationOf expression instruction declaration) := by
  refine (Composed.skips _).bind fun _ => (Composed.sees _).bind fun _ => .ite ?_ ?_
  · exact functionDecl_composed he hi _
  refine seesVariable_composed.bind fun _ => .ite ?_ ?_
  · refine (Composed.check _ 1).bind fun _ => ?_
    exact .ite ((Composed.fail _).bind fun _ => variableDecl_composed he _)
      (variableDecl_composed he _)
  · exact (Composed.sees _).bind fun _ => .ite (moduleDecl_composed hd _) (.fail _)

end

/-! ## The constructs that contain themselves -/

/-- The seven readers at a nesting depth. -/
structure ReadersComposed (depth : Nat) : Prop where
  expression : Composed (expression depth)
  chain : ∀ least, Composed (chain depth least)
  operand : Composed (operand depth)
  primary : Composed (primary depth)
  instruction : Composed (instruction depth)
  conditional : Composed (conditional depth)
  declaration : Composed (declaration depth)

theorem readersComposed : ∀ depth, ReadersComposed depth
  | 0 =>
    ⟨.overflow, fun _ => .overflow, .overflow, .overflow, .overflow, .overflow, .overflow⟩
  | depth + 1 =>
    have ih := readersComposed depth
    { expression := expressionOf_composed ih.expression ih.chain
      chain := chainOf_composed ih.chain ih.operand
      operand := operandOf_composed ih.expression ih.operand ih.primary
      primary := primaryOf_composed ih.expression ih.instruction
      instruction :=
        instructionOf_composed ih.expression ih.instruction ih.conditional ih.declaration
      conditional := conditionalOf_composed ih.expression ih.instruction ih.conditional
      declaration := declarationOf_composed ih.expression ih.instruction ih.declaration }

theorem root_composed (depth : Nat) : Composed (root depth) :=
  terminated_composed (readersComposed depth).declaration

end Scriptlet.Grammar
