import Scriptlet.Node.Grammar
import Scriptlet.Proofs.Node.Fits
import Scriptlet.Proofs.Token.Layout

/-!
# The grammar does not look at places

Every construct reads from tokens without places the tree without lines that it reads from the
tokens with their places, and objects to the same (`readersBlind`). As the readers of the grammar,
the lemmas are one for each construct over the readers of its parts, and one induction on the
nesting depth for the seven that contain themselves.
-/

namespace Scriptlet.Grammar

open Token.Pattern Reader Node

theorem integerOf_blind (text : String) : Blind id (integerOf text) := by
  unfold integerOf
  dsimp only
  split
  · exact .pure _
  · exact .throw (Fault.digitsFromText _)

/-! ## Parts of functions -/

theorem param_blind (found : List Param) : Blind id (param found) := by
  refine (skips_blind _).next fun isRest => (expectAs_blind _ _).bind fun t => ?_
  have finish : Blind id (do separator (punct ")"); return (⟨t.text, isRest⟩ : Param)) :=
    (separator_blind _).next fun _ => .pure _
  dsimp only
  refine .ite ?_ (.ite ?_ finish)
  · exact .next (.throw (Fault.misread (.duplicateParameter t.text) t.position)) fun _ =>
      .ite ((sees_blind _).next fun _ => .ite finish ((fail_blind _).next fun _ => finish)) finish
  · exact (sees_blind _).next fun _ => .ite finish ((fail_blind _).next fun _ => finish)

theorem params_blind : Blind (List.map id) params :=
  (expect_blind _).bind fun _ => listUntil_blind fun found => by
    rw [List.map_id]
    exact param_blind found

section

variable {expression instruction conditional declaration operand primary : Reader Node}
  {chain : Nat → Reader Node}

theorem args_blind (he : Blind unlined expression) : Blind (List.map unlined) (args expression) :=
  (expect_blind _).bind fun _ => commaList_blind he

theorem returnStatement_blind (he : Blind unlined expression) :
    Blind unlined (returnStatement expression) := by
  refine (expect_blind _).bind fun _ => (or_blind (sees_blind _) (sees_blind _)).next fun _ => ?_
  dsimp only
  refine .ite ?_ (he.bind fun value => (accept_blind _).bind fun _ => .pure value)
  exact (accept_blind _).bind fun _ => .returns (by rw [unlined])

/-- A function body without lines. -/
def bodyUnlined (body : List Node × Node) : List Node × Node := (body.1.map unlined, body.2.unlined)

theorem bodyUntilBrace_blind (he : Blind unlined expression) (hi : Blind unlined instruction) :
    ∀ (bound : List Token) (found : List Node), placeless.Mirrors bodyUnlined
      (bodyUntilBrace expression instruction bound found)
      (bodyUntilBrace expression instruction (bound.map Token.unplaced) (found.map unlined))
  | bound, found => by
    unfold bodyUntilBrace
    refine (skips_blind _).next fun _ => .ite ?_ ((sees_blind _).next fun _ => .ite ?_ ?_)
    · exact .returns (by simp [bodyUnlined, unlined])
    · refine (returnStatement_blind he).bind fun value => (skips_blind _).next fun _ => ?_
      have finish : placeless.Mirrors bodyUnlined (pure (found.reverse, value) : Reader _)
          (pure ((found.map unlined).reverse, value.unlined)) :=
        .returns (by simp [bodyUnlined])
      exact .ite finish ((fail_blind _).next fun _ => finish)
    · refine hi.bind fun node => ?_
      cases bound with
      | nil => exact .throw Fault.overflow
      | cons t bound => exact bodyUntilBrace_blind he hi bound (node :: found)

theorem functionBody_blind (he : Blind unlined expression) (hi : Blind unlined instruction) :
    Blind bodyUnlined (functionBody expression instruction) := by
  refine (skips_blind _).next fun _ => .ite (he.bind fun value => .returns rfl) ?_
  exact (expectAs_blind _ _).bind fun _ => pending_blind.bind fun bound =>
    bodyUntilBrace_blind he hi bound []

theorem functionExpr_blind (he : Blind unlined expression) (hi : Blind unlined instruction) :
    Blind unlined (functionExpr expression instruction) := by
  refine (expect_blind _).bind fun t => (accept_blind _).bind fun name =>
    params_blind.bind fun ps => (functionBody_blind he hi).bind fun body => .returns ?_
  cases name <;> simp [unlined]

/-! ## Declarations -/

theorem functionDecl_blind (he : Blind unlined expression) (hi : Blind unlined instruction)
    (isExported : Bool) : Blind unlined (functionDecl expression instruction isExported) := by
  refine (expect_blind _).bind fun t => (expectAs_blind _ _).bind fun name =>
    params_blind.bind fun ps => (functionBody_blind he hi).bind fun body => .returns ?_
  simp [unlined]

theorem variableDecl_blind (he : Blind unlined expression) (isExported : Bool) :
    Blind unlined (variableDecl expression isExported) := by
  refine advance_blind.bind fun t => (expectAs_blind _ _).bind fun name =>
    (expect_blind _).bind fun _ => he.bind fun value => .returns ?_
  rw [unlined]
  rfl

theorem destructuring_blind (he : Blind unlined expression) :
    Blind unlined (destructuring expression) := by
  refine advance_blind.bind fun t => (expect_blind _).bind fun _ => Erasure.Mirrors.bind
    (commaList_blind (f := id) ?_) fun names => (expect_blind _).bind fun _ =>
    he.bind fun source => .returns ?_
  · exact (expectAs_blind _ _).bind fun name => .pure _
  · rw [unlined, List.map_id]
    rfl

theorem terminated_blind (hd : Blind unlined declaration) :
    Blind unlined (terminated declaration) :=
  hd.bind fun node => (accept_blind _).bind fun _ => .pure node

theorem moduleDecl_blind (hd : Blind unlined declaration) (isExported : Bool) :
    Blind unlined (moduleDecl declaration isExported) := by
  refine (expect_blind _).bind fun t => (expectAs_blind _ _).bind fun name =>
    (expect_blind _).bind fun _ => Erasure.Mirrors.bind (listUntil_blind (f := unlined) fun _ => ?_)
      fun body => .returns ?_
  · refine finished_blind.next fun _ => ?_
    exact .ite ((fail_blind _).next fun _ => terminated_blind hd) (terminated_blind hd)
  · simp [unlined]

/-! ## Statements -/

theorem block_blind (hi : Blind unlined instruction) :
    Blind (List.map unlined) (block instruction) := by
  refine (expectAs_blind _ _).bind fun _ => listUntil_blind fun _ => ?_
  exact finished_blind.next fun _ => .ite ((fail_blind _).next fun _ => hi) hi

theorem conditionalOf_blind (he : Blind unlined expression) (hi : Blind unlined instruction)
    (hc : Blind unlined conditional) :
    Blind unlined (conditionalOf expression instruction conditional) := by
  refine (expect_blind _).bind fun t => he.bind fun condition => (block_blind hi).bind fun body =>
    (skips_blind _).next fun _ => .ite ((sees_blind _).next fun _ => .ite ?_ ?_) (.returns ?_)
  · refine hc.bind fun other => .returns ?_
    simp [unlined, unlinedElse]
  · refine (block_blind hi).bind fun other => .returns ?_
    simp [unlined, unlinedElse]
  · simp [unlined, unlinedElse]

theorem seesVariable_blind : Blind id seesVariable := or_blind (sees_blind _) (sees_blind _)

/-! ## Expressions -/

theorem nextOperator_blind : Blind id nextOperator := by
  refine (peek_blind 0).bind fun t => ?_
  cases t with
  | none => exact .pure none
  | some t => exact .pure _

theorem climb_blind (hc : ∀ least, Blind unlined (chain least)) (least : Nat) :
    ∀ (bound : List Token) (left : Node), placeless.Mirrors unlined (climb chain least bound left)
      (climb chain least (bound.map Token.unplaced) left.unlined)
  | bound, left => by
    unfold climb
    refine nextOperator_blind.next fun operator => ?_
    cases operator with
    | none => exact .pure left
    | some operator =>
      refine .ite (.pure left) (advance_blind.bind fun t => (hc _).bind fun right => ?_)
      cases bound with
      | nil => exact .throw Fault.overflow
      | cons _ bound =>
        have hnode : (binary t.line operator left right).unlined =
            binary 0 operator left.unlined right.unlined := by rw [unlined]
        have ih := climb_blind hc least bound (binary t.line operator left right)
        rw [hnode] at ih
        exact ih

theorem application?_blind (he : Blind unlined expression) (node : Node) :
    placeless.Mirrors (Option.map unlined) (application? expression node)
      (application? expression node.unlined) := by
  refine (sees_blind _).next fun _ => .ite ?_ ((sees_blind _).next fun _ => .ite ?_
    ((sees_blind _).next fun _ => .ite ?_ (.pure none)))
  · refine (peek_blind 0).bind fun t => (args_blind he).bind fun args => .returns ?_
    cases t <;> simp [unlined]
  · refine advance_blind.bind fun dot => (peek_blind 0).bind fun t => ?_
    cases t with
    | none => exact fail_blind _
    | some t =>
      refine .ite (advance_blind.bind fun member => .returns ?_) (fail_blind _)
      simp [unlined]
  · have finish : placeless.Mirrors (Option.map unlined)
        (do
          let colons ← advance
          let member ← expectAs (any .name) (.described "module member")
          return some (.moduleAccess colons.line node member.text))
        (do
          let colons ← advance
          let member ← expectAs (any .name) (.described "module member")
          return some (.moduleAccess colons.line node.unlined member.text)) := by
      refine advance_blind.bind fun colons => (expectAs_blind _ _).bind fun member => .returns ?_
      simp [unlined]
    dsimp only
    rw [isPath_unlined]
    exact .ite finish ((fail_blind _).next fun _ => finish)

theorem applications_blind (he : Blind unlined expression) :
    ∀ (bound : List Token) (node : Node), placeless.Mirrors unlined
      (applications expression bound node)
      (applications expression (bound.map Token.unplaced) node.unlined)
  | bound, node => by
    unfold applications
    refine (application?_blind he node).bind fun next => ?_
    cases next with
    | none => exact .pure node
    | some next =>
      cases bound with
      | nil => exact .throw Fault.overflow
      | cons t bound => exact applications_blind he bound next

theorem applied_blind (he : Blind unlined expression) (node : Node) :
    placeless.Mirrors unlined (applied expression node) (applied expression node.unlined) :=
  pending_blind.bind fun bound => applications_blind he bound node

/-- A key and its value without lines. -/
def pairUnlined (pair : String × Node) : String × Node := (pair.1, pair.2.unlined)

theorem property_blind (he : Blind unlined expression) :
    Blind pairUnlined (property expression) := by
  refine (peek_blind 0).bind fun t => ?_
  cases t with
  | none => exact fail_blind _
  | some t =>
    refine .ite ?_ (fail_blind _)
    exact advance_blind.bind fun key => (expect_blind _).bind fun _ =>
      he.bind fun value => .returns rfl

theorem objectLiteral_blind (he : Blind unlined expression) :
    Blind unlined (objectLiteral expression) := by
  refine (expect_blind _).bind fun t => (commaList_blind (property_blind he)).bind fun pairs =>
    .returns ?_
  rw [unlined, unlinedPairs_eq_map]
  rfl

theorem arrayLiteral_blind (he : Blind unlined expression) :
    Blind unlined (arrayLiteral expression) := by
  refine (expect_blind _).bind fun t => (commaList_blind he).bind fun elements => .returns ?_
  rw [unlined, unlinedAll_eq_map]
  rfl

theorem parenthesised_blind (he : Blind unlined expression) :
    Blind unlined (parenthesised expression) :=
  advance_blind.bind fun _ => he.bind fun node => (expect_blind _).bind fun _ => .pure node

theorem primaryOf_blind (he : Blind unlined expression) (hi : Blind unlined instruction) :
    Blind unlined (primaryOf expression instruction) := by
  refine (peek_blind 0).bind fun t => ?_
  cases t with
  | none => exact fail_blind _
  | some t =>
    obtain ⟨kind, text, position⟩ := t
    cases kind with
    | integer =>
      exact advance_blind.bind fun _ => (integerOf_blind text).next fun n =>
        .returns (by simp [unlined])
    | float | string | char | name =>
      exact advance_blind.bind fun _ => .returns (by simp [unlined])
    | keyword =>
      refine .ite ?_ (.ite ?_ (.ite (functionExpr_blind he hi) (fail_blind _)))
      · exact advance_blind.bind fun _ => .returns (by simp [unlined])
      · exact advance_blind.bind fun _ => .returns (by simp [unlined])
    | punct =>
      exact .ite (parenthesised_blind he) (.ite (objectLiteral_blind he)
        (.ite (arrayLiteral_blind he) (fail_blind _)))
    | op => exact fail_blind _

theorem operandOf_blind (he : Blind unlined expression) (ho : Blind unlined operand)
    (hp : Blind unlined primary) : Blind unlined (operandOf expression operand primary) := by
  refine (sees_blind _).next fun _ => .ite (advance_blind.bind fun minus => ?_)
    (hp.bind fun node => applied_blind he node)
  refine (sees_blind _).next fun _ => .ite ?_ ((sees_blind _).next fun _ => .ite ?_ ?_)
  · refine advance_blind.bind fun t => (integerOf_blind _).next fun n => ?_
    have happlied := applied_blind he (.integer minus.line (-n))
    rw [unlined] at happlied
    exact happlied
  · refine advance_blind.bind fun t => ?_
    have happlied := applied_blind he (.float minus.line (doubleOf t.text).neg)
    rw [unlined] at happlied
    exact happlied
  · refine ho.bind fun node => .returns ?_
    simp [unlined]

theorem chainOf_blind (hc : ∀ least, Blind unlined (chain least)) (ho : Blind unlined operand)
    (least : Nat) : Blind unlined (chainOf chain operand least) :=
  ho.bind fun left => pending_blind.bind fun bound => climb_blind hc least bound left

theorem expressionOf_blind (he : Blind unlined expression)
    (hc : ∀ least, Blind unlined (chain least)) :
    Blind unlined (expressionOf expression chain) := by
  refine (hc 1).bind fun left => (sees_blind _).next fun _ => .ite ?_ (.pure left)
  have finish : placeless.Mirrors unlined
      (do let t ← advance; return .reassignment t.line left (← expression))
      (do let t ← advance; return .reassignment t.line left.unlined (← expression)) := by
    refine advance_blind.bind fun t => he.bind fun value => .returns ?_
    simp [unlined]
  dsimp only
  rw [isTarget_unlined]
  exact .ite finish ((fail_blind _).next fun _ => finish)

theorem instructionOf_blind (he : Blind unlined expression) (hi : Blind unlined instruction)
    (hc : Blind unlined conditional) (hd : Blind unlined declaration) :
    Blind unlined (instructionOf expression instruction conditional declaration) := by
  refine terminated_blind (seesVariable_blind.next fun _ => .ite ?_ ?_)
  · exact (check_blind _ 1).next fun _ => .ite (destructuring_blind he) (variableDecl_blind he _)
  refine (and_blind (sees_blind _) (check_blind _ 1)).next fun _ => .ite ?_ ?_
  · exact functionDecl_blind he hi _
  refine (sees_blind _).next fun _ => .ite (moduleDecl_blind hd _) ?_
  refine (sees_blind _).next fun _ => .ite hc ?_
  refine (sees_blind _).next fun _ => .ite (fail_blind _) ?_
  exact (sees_blind _).next fun _ => .ite (fail_blind _) he

theorem declarationOf_blind (he : Blind unlined expression) (hi : Blind unlined instruction)
    (hd : Blind unlined declaration) :
    Blind unlined (declarationOf expression instruction declaration) := by
  refine (skips_blind _).next fun isExported => (sees_blind _).next fun _ => .ite ?_ ?_
  · exact functionDecl_blind he hi _
  refine seesVariable_blind.next fun _ => .ite ?_ ?_
  · refine (check_blind _ 1).next fun _ => ?_
    exact .ite ((fail_blind _).next fun _ => variableDecl_blind he _) (variableDecl_blind he _)
  · exact (sees_blind _).next fun _ => .ite (moduleDecl_blind hd _) (fail_blind _)

end

/-! ## The constructs that contain themselves -/

/-- The seven readers at a nesting depth. -/
structure ReadersBlind (depth : Nat) : Prop where
  expression : Blind unlined (expression depth)
  chain : ∀ least, Blind unlined (chain depth least)
  operand : Blind unlined (operand depth)
  primary : Blind unlined (primary depth)
  instruction : Blind unlined (instruction depth)
  conditional : Blind unlined (conditional depth)
  declaration : Blind unlined (declaration depth)

theorem readersBlind : ∀ depth, ReadersBlind depth
  | 0 =>
    have overflows : Blind unlined (throw .overflow) := .throw Fault.overflow
    ⟨overflows, fun _ => overflows, overflows, overflows, overflows, overflows, overflows⟩
  | depth + 1 =>
    have ih := readersBlind depth
    { expression := expressionOf_blind ih.expression ih.chain
      chain := chainOf_blind ih.chain ih.operand
      operand := operandOf_blind ih.expression ih.operand ih.primary
      primary := primaryOf_blind ih.expression ih.instruction
      instruction :=
        instructionOf_blind ih.expression ih.instruction ih.conditional ih.declaration
      conditional := conditionalOf_blind ih.expression ih.instruction ih.conditional
      declaration := declarationOf_blind ih.expression ih.instruction ih.declaration }

theorem root_blind (depth : Nat) : Blind unlined (root depth) :=
  terminated_blind (readersBlind depth).declaration

end Scriptlet.Grammar
