import Mathlib.Data.List.Nodup
import Scriptlet.Node.Grammar
import Scriptlet.Proofs.Number.Integer
import Scriptlet.Proofs.Token.Yield

/-!
# Trees that were read fit

Whatever a source text holds, the nodes that are read from it fit the place that they were read in
(`Node.Fits`), and reading fails with nothing but a fault of reading.

The readers of the constructs are taken one by one; each is told what the readers of its parts
yield. The seven that contain themselves are put together by induction on the nesting depth.
-/

namespace Scriptlet.Grammar

open Token.Pattern Reader Node

/-- The reader gives nodes that fit a place. -/
abbrev Reads (r : Reader Node) (role : Role) : Prop := Yields r (Fits True role)

/-! ## Literals -/

theorem integerOf_yields (text : String) : Yields (integerOf text) fun n =>
    (Number.Integer.text? n).isSome = true ∧ (Number.Integer.text? (-n)).isSome = true := by
  unfold integerOf
  simp only
  cases hr : Number.Integer.read? text.toList with
  | none => exact .throw (Or.inr (Or.inl rfl))
  | some n =>
    have written := Number.Integer.isSome_text?_of_read? hr
    exact .pure ⟨written _ rfl, written _ (by simp)⟩

/-! ## Parts of functions -/

/-- One parameter behind others. If it is a rest parameter then the list ends behind it. -/
theorem param_gives {s : Stream} (hs : s.Sound) (found : List Param) :
    Gives s (param found) fun p s' => Token.isName p.name = true ∧
      (∀ q ∈ found, q.name ≠ p.name) ∧
      (p.isRest = true → (s'.pending[0]?).any (punct ")").accepts = true) := by
  unfold param
  refine Obeys.bind (skips_yields _ s hs) ?_
  intro isRest s₁ h₁ _
  have hs₁ := hs.before h₁
  refine Obeys.bind (expectName_yields _ s₁ hs₁) ?_
  intro t s₂ h₂ ht
  have hs₂ := hs₁.before h₂
  dsimp only
  split
  · exact Obeys.throw_bind (Or.inl rfl)
  · next hd =>
    have distinct : ∀ q ∈ found, q.name ≠ t.text := by
      intro q hq he
      exact hd (List.any_eq_true.mpr ⟨q, hq, by simp [he]⟩)
    split
    · -- behind a rest parameter the separator sees the closing parenthesis and takes nothing
      refine Obeys.bind (check_gives hs₂ _ 0) ?_
      rintro b s₃ - ⟨rfl, rfl⟩
      split
      · next hc =>
        refine Obeys.bind (P := fun _ s' => s' = s₃) ?_ ?_
        · unfold separator
          refine Obeys.bind (check_gives hs₂ _ 0) ?_
          rintro b s₄ - ⟨rfl, rfl⟩
          rw [if_pos hc]
          exact Obeys.pure rfl
        · rintro _ s₄ - rfl
          exact Obeys.pure ⟨ht, distinct, fun _ => hc⟩
      · exact Obeys.bind (P := fun _ _ => False) (fail_gives hs₂ _) fun _ _ _ h => h.elim
    · next hr =>
      refine Obeys.bind (separator_yields _ s₂ hs₂) ?_
      intro _ s₃ _ _
      exact Obeys.pure ⟨ht, distinct, fun h => absurd h hr⟩

/-- What is known of the parameters before the next one, last first: if the one before is a rest
parameter then the list ends here. -/
structure ParamsSoFar (found : List Param) (s : Stream) : Prop where
  named : ∀ p ∈ found, Token.isName p.name = true
  distinct : (found.map (·.name)).Nodup
  single : ∀ p ∈ found.tail, p.isRest = false
  closing : ∀ p ∈ found.head?, p.isRest = true → (s.pending[0]?).any (punct ")").accepts = true

theorem ParamsSoFar.listed {found : List Param} {s : Stream} (h : ParamsSoFar found s) :
    Param.Listed found.reverse where
  named := by simpa using h.named
  distinct := by
    rw [List.map_reverse]
    exact List.nodup_reverse.mpr h.distinct
  single := by
    intro p hp
    rw [List.dropLast_reverse] at hp
    exact h.single p (List.mem_reverse.mp hp)

/-- One more parameter, where the list does not end yet. -/
theorem ParamsSoFar.cons {found : List Param} {s s' : Stream} {p : Param}
    (h : ParamsSoFar found s) (ho : (s.pending[0]?).any (punct ")").accepts = false)
    (hn : Token.isName p.name = true) (hd : ∀ q ∈ found, q.name ≠ p.name)
    (hc : p.isRest = true → (s'.pending[0]?).any (punct ")").accepts = true) :
    ParamsSoFar (p :: found) s' where
  named := by
    intro q hq
    rcases List.mem_cons.mp hq with rfl | hq
    · exact hn
    · exact h.named q hq
  distinct := by
    rw [List.map_cons, List.nodup_cons]
    refine ⟨?_, h.distinct⟩
    intro hm
    obtain ⟨q, hq, he⟩ := List.mem_map.mp hm
    exact hd q hq he
  single := by
    intro q hq
    rw [List.tail_cons] at hq
    cases found with
    | nil => simp at hq
    | cons r rest =>
      rcases List.mem_cons.mp hq with rfl | hq
      · cases hr : q.isRest with
        | false => rfl
        | true =>
          rw [h.closing q rfl hr] at ho
          cases ho
      · exact h.single q hq
  closing := by
    intro q hq
    cases hq
    exact hc

theorem paramItems_gives : ∀ (bound : List Token) (found : List Param) (s : Stream), s.Sound →
    ParamsSoFar found s →
    Gives s (itemsUntil (punct ")") param bound found) fun l _ => Param.Listed l
  | bound, found, s, hs, hf => by
    unfold itemsUntil
    refine Obeys.bind (skips_gives hs _) ?_
    rintro b s₁ - ⟨hb, hn⟩
    split
    · exact Obeys.pure hf.listed
    · next hb' =>
      simp only [Bool.not_eq_true] at hb'
      obtain rfl := hn hb'
      refine Obeys.bind (param_gives hs found) ?_
      rintro p s₂ h₂ ⟨hp, hd, hc⟩
      cases bound with
      | nil => exact Obeys.throw (Or.inr (Or.inr rfl))
      | cons t bound =>
        refine paramItems_gives bound (p :: found) s₂ (hs.before h₂) ?_
        exact hf.cons (by rw [← hb, hb']) hp hd hc

/-- Parameters in parentheses have different names, and only the last one may take the rest. -/
theorem params_yields : Yields params Param.Listed := by
  unfold params
  refine (expect_yields _).bind ?_
  intro _ _
  refine pending_yields.bind ?_
  intro bound _ s hs
  exact paramItems_gives bound [] s hs ⟨by simp, by simp, by simp, by simp⟩

section

variable {expression instruction conditional declaration operand primary : Reader Node}
  {chain : Nat → Reader Node}

theorem args_yields (he : Reads expression .expression) :
    Yields (args expression) fun l => ∀ a ∈ l, Fits True .expression a :=
  (expect_yields _).bind fun _ _ => commaList_yields he

theorem returnStatement_yields (he : Reads expression .expression) :
    Reads (returnStatement expression) .expression := by
  unfold returnStatement
  refine (expect_yields _).bind ?_
  intro _ _
  refine (or_yields (sees_yields _) (sees_yields _)).bind ?_
  intro b _
  dsimp only
  split
  · exact (accept_yields _).bind fun _ _ => .pure .undefined
  · refine he.bind ?_
    intro value hv
    exact (accept_yields _).bind fun _ _ => .pure hv

/-- What a function body is made of. -/
def BodyFits (body : List Node × Node) : Prop :=
  (∀ i ∈ body.1, Fits True .instruction i) ∧ Fits True .expression body.2

theorem bodyUntilBrace_yields (he : Reads expression .expression)
    (hi : Reads instruction .instruction) : ∀ (bound : List Token) (found : List Node),
      (∀ i ∈ found, Fits True .instruction i) →
      Yields (bodyUntilBrace expression instruction bound found) BodyFits
  | bound, found, hf => by
    unfold bodyUntilBrace
    refine (skips_yields _).bind ?_
    intro b _
    split
    · exact .pure ⟨by simpa using hf, .undefined⟩
    · refine (sees_yields _).bind ?_
      intro b _
      split
      · refine (returnStatement_yields he).bind ?_
        intro value hv
        refine (skips_yields _).bind ?_
        intro b _
        dsimp only
        split
        · exact .pure ⟨by simpa using hf, hv⟩
        · exact (fail_yields (P := fun _ => False) _).bind fun _ h => h.elim
      · refine hi.bind ?_
        intro node hn
        cases bound with
        | nil => exact .overflow
        | cons t bound =>
          refine bodyUntilBrace_yields he hi bound (node :: found) ?_
          intro i hm
          rcases List.mem_cons.mp hm with rfl | hm
          · exact hn
          · exact hf i hm

theorem functionBody_yields (he : Reads expression .expression)
    (hi : Reads instruction .instruction) :
    Yields (functionBody expression instruction) BodyFits := by
  unfold functionBody
  refine (skips_yields _).bind ?_
  intro b _
  split
  · refine he.bind ?_
    intro value hv
    exact .pure ⟨by simp, hv⟩
  · refine (expectAs_yields _ _).bind ?_
    intro _ _
    exact pending_yields.bind fun bound _ => bodyUntilBrace_yields he hi bound [] (by simp)

theorem functionExpr_yields (he : Reads expression .expression)
    (hi : Reads instruction .instruction) :
    Reads (functionExpr expression instruction) .expression := by
  unfold functionExpr
  refine (expect_yields _).bind ?_
  intro t _
  refine (accept_yields _).bind ?_
  intro name hn
  refine params_yields.bind ?_
  intro ps hp
  refine (functionBody_yields he hi).bind ?_
  rintro ⟨body, result⟩ ⟨hb, hr⟩
  refine .pure (.functionExpr ?_ hp hb hr)
  cases name with
  | none => decide
  | some t =>
    obtain ⟨hs, ha⟩ := hn t rfl
    have hk : t.kind = .name := by simpa [Token.Pattern.accepts, any] using ha
    unfold Token.Sound at hs
    rw [hk] at hs
    exact hs

/-! ## Declarations -/

theorem functionDecl_yields (he : Reads expression .expression)
    (hi : Reads instruction .instruction) (isExported : Bool) :
    Yields (functionDecl expression instruction isExported) fun node =>
      Fits True .declaration node ∧ node.isExported = isExported := by
  unfold functionDecl
  refine (expect_yields _).bind ?_
  intro t _
  refine (expectName_yields _).bind ?_
  intro name hn
  refine params_yields.bind ?_
  intro ps hp
  refine (functionBody_yields he hi).bind ?_
  rintro ⟨body, result⟩ ⟨hb, hr⟩
  exact .pure ⟨.functionDecl hn hp hb hr, rfl⟩

theorem variableDecl_yields (he : Reads expression .expression) (isExported : Bool) :
    Yields (variableDecl expression isExported) fun node =>
      Fits True .declaration node ∧ node.isExported = isExported := by
  unfold variableDecl
  refine advance_yields.bind ?_
  intro t _
  refine (expectName_yields _).bind ?_
  intro name hn
  refine (expect_yields _).bind ?_
  intro _ _
  refine he.bind ?_
  intro value hv
  exact .pure ⟨.variableDecl hn hv, rfl⟩

theorem destructuring_yields (he : Reads expression .expression) :
    Reads (destructuring expression) .instruction := by
  unfold destructuring
  refine advance_yields.bind ?_
  intro t _
  refine (expect_yields _).bind ?_
  intro _ _
  refine (commaList_yields (P := fun name => Token.isName name = true) ?_).bind ?_
  · exact (expectName_yields _).bind fun _ hn => .pure hn
  · intro names hn
    refine (expect_yields _).bind ?_
    intro _ _
    refine he.bind ?_
    intro source hs
    exact .pure (.destructuring hn hs)

theorem terminated_yields {P : Node → Prop} (h : Yields declaration P) :
    Yields (terminated declaration) P := by
  refine h.bind ?_
  intro node hn
  exact (accept_yields _).bind fun _ _ => .pure hn

theorem moduleDecl_yields (hd : Reads declaration .declaration) (isExported : Bool) :
    Yields (moduleDecl declaration isExported) fun node =>
      Fits True .declaration node ∧ node.isExported = isExported := by
  unfold moduleDecl
  refine (expect_yields _).bind ?_
  intro t _
  refine (expectName_yields _).bind ?_
  intro name hn
  refine (expect_yields _).bind ?_
  intro _ _
  refine (listUntil_yields (P := Fits True .declaration) ?_).bind ?_
  · intro _
    refine finished_yields.bind ?_
    intro b _
    dsimp only
    split
    · exact (fail_yields (P := fun _ => False) _).bind fun _ h => h.elim
    · exact terminated_yields hd
  · intro body hb
    exact .pure ⟨.moduleDecl hn hb, rfl⟩

/-! ## Statements -/

theorem block_yields (hi : Reads instruction .instruction) :
    Yields (block instruction) fun l => ∀ i ∈ l, Fits True .instruction i := by
  unfold block
  refine (expectAs_yields _ _).bind ?_
  intro _ _
  refine listUntil_yields ?_
  intro _
  refine finished_yields.bind ?_
  intro b _
  dsimp only
  split
  · exact (fail_yields (P := fun _ => False) _).bind fun _ h => h.elim
  · exact hi

theorem conditionalOf_yields (he : Reads expression .expression)
    (hi : Reads instruction .instruction) (hc : Reads conditional .instruction) :
    Reads (conditionalOf expression instruction conditional) .instruction := by
  unfold conditionalOf
  refine (expect_yields _).bind ?_
  intro t _
  refine he.bind ?_
  intro condition hcond
  refine (block_yields hi).bind ?_
  intro body hb
  refine (skips_yields _).bind ?_
  intro b _
  split
  · refine (sees_yields _).bind ?_
    intro b _
    split
    · refine hc.bind ?_
      intro other ho
      refine .pure (.conditional hcond hb ?_)
      intro branch hm i hi
      cases hm
      rw [List.mem_singleton] at hi
      exact hi ▸ ho
    · refine (block_yields hi).bind ?_
      intro other ho
      refine .pure (.conditional hcond hb ?_)
      intro branch hm
      cases hm
      exact ho
  · exact .pure (.conditional hcond hb (by simp))

/-! ## Expressions -/

/-- Only operators of the language are read. -/
theorem nextOperator_yields : Yields nextOperator fun o => ∀ x ∈ o, x ∈ Operator.all := by
  unfold nextOperator
  refine (peek_yields 0).bind ?_
  intro o _
  cases o with
  | none => exact .pure (by simp)
  | some t =>
    refine .pure ?_
    intro x hx
    split at hx
    · exact List.mem_of_find?_eq_some hx
    · simp at hx

theorem climb_yields (hc : ∀ least, Reads (chain least) .expression) (least : Nat) :
    ∀ (bound : List Token) (left : Node), Fits True .expression left →
      Reads (climb chain least bound left) .expression
  | bound, left, hl => by
    unfold climb
    refine nextOperator_yields.bind ?_
    intro o ho
    cases o with
    | none => exact .pure hl
    | some operator =>
      dsimp only
      split
      · exact .pure hl
      · refine advance_yields.bind ?_
        intro t _
        refine (hc _).bind ?_
        intro right hr
        cases bound with
        | nil => exact .overflow
        | cons t bound => exact climb_yields hc least bound _ (.binary (ho operator rfl) hl hr)

theorem application?_yields (he : Reads expression .expression) {node : Node}
    (hn : Fits True .expression node) :
    Yields (application? expression node) fun o => ∀ next ∈ o, Fits True .expression next := by
  unfold application?
  refine (sees_yields _).bind ?_
  intro b _
  split
  · refine (peek_yields 0).bind ?_
    intro t _
    refine (args_yields he).bind ?_
    intro l hl
    refine .pure ?_
    rintro _ ⟨⟩
    exact .call hn hl
  · refine (sees_yields _).bind ?_
    intro b _
    split
    · refine advance_yields.bind ?_
      intro dot _
      refine peek_bind_yields ?_
      intro s hs
      cases ht : s.pending[0]? with
      | none => exact fail_gives hs _
      | some t =>
        dsimp only
        split
        · next hk =>
          refine Obeys.bind (advance_gives hs) ?_
          intro member s' _ hm
          refine Obeys.pure ?_
          rintro _ ⟨⟩
          obtain rfl : member = t := by simpa [hm] using ht
          exact .objectAccess hn ((hs.tokens member (List.mem_of_getElem? ht)).isWord hk)
        · exact fail_gives hs _
    · refine (sees_yields _).bind ?_
      intro b _
      split
      · dsimp only
        split
        · next hp =>
          refine advance_yields.bind ?_
          intro colons _
          refine (expectName_yields _).bind ?_
          intro member hm
          refine .pure ?_
          rintro _ ⟨⟩
          exact .moduleAccess hp hn hm
        · exact (fail_yields (P := fun _ => False) _).bind fun _ h => h.elim
      · exact .pure (by simp)

theorem applications_yields (he : Reads expression .expression) :
    ∀ (bound : List Token) (node : Node), Fits True .expression node →
      Reads (applications expression bound node) .expression
  | bound, node, hn => by
    unfold applications
    refine (application?_yields he hn).bind ?_
    intro o ho
    cases o with
    | none => exact .pure hn
    | some next =>
      cases bound with
      | nil => exact .overflow
      | cons t bound => exact applications_yields he bound next (ho next rfl)

theorem applied_yields (he : Reads expression .expression) {node : Node}
    (hn : Fits True .expression node) : Reads (applied expression node) .expression :=
  pending_yields.bind fun bound _ => applications_yields he bound node hn

theorem property_yields (he : Reads expression .expression) :
    Yields (property expression) fun pair => Fits True .expression pair.2 := by
  unfold property
  refine (peek_yields 0).bind ?_
  intro o _
  cases o with
  | none => exact fail_yields _
  | some t =>
    dsimp only
    split
    · refine advance_yields.bind ?_
      intro key _
      refine (expect_yields _).bind ?_
      intro _ _
      exact he.bind fun _ hv => .pure hv
    · exact fail_yields _

theorem objectLiteral_yields (he : Reads expression .expression) :
    Reads (objectLiteral expression) .expression := by
  unfold objectLiteral
  refine (expect_yields _).bind ?_
  intro t _
  exact (commaList_yields (property_yields he)).bind fun _ hp => .pure (.object hp)

theorem arrayLiteral_yields (he : Reads expression .expression) :
    Reads (arrayLiteral expression) .expression := by
  unfold arrayLiteral
  refine (expect_yields _).bind ?_
  intro t _
  exact (commaList_yields he).bind fun _ hp => .pure (.array hp)

theorem parenthesised_yields (he : Reads expression .expression) :
    Reads (parenthesised expression) .expression := by
  unfold parenthesised
  refine advance_yields.bind ?_
  intro _ _
  refine he.bind ?_
  intro node hn
  exact (expect_yields _).bind fun _ _ => .pure hn

theorem primaryOf_yields (he : Reads expression .expression)
    (hi : Reads instruction .instruction) :
    Reads (primaryOf expression instruction) .expression := by
  unfold primaryOf
  refine (peek_yields 0).bind ?_
  intro o ho
  cases o with
  | none => exact fail_yields _
  | some t =>
    have hs := ho t rfl
    unfold Token.Sound at hs
    dsimp only
    cases hk : t.kind with
    | integer =>
      refine advance_yields.bind ?_
      intro _ _
      exact (integerOf_yields _).bind fun n hn => .pure (.integer hn.1)
    | float => exact advance_yields.bind fun _ _ => .pure (.float trivial)
    | string => exact advance_yields.bind fun _ _ => .pure .string
    | char =>
      rw [hk] at hs
      obtain ⟨c, hc⟩ := hs
      refine advance_yields.bind ?_
      intro _ _
      rw [hc]
      exact .pure .char
    | name =>
      rw [hk] at hs
      exact advance_yields.bind fun _ _ => .pure (.identifier hs)
    | keyword =>
      dsimp only
      split
      · exact advance_yields.bind fun _ _ => .pure .bool
      · split
        · exact advance_yields.bind fun _ _ => .pure .undefined
        · split
          · exact functionExpr_yields he hi
          · exact fail_yields _
    | punct =>
      dsimp only
      split
      · exact parenthesised_yields he
      · split
        · exact objectLiteral_yields he
        · split
          · exact arrayLiteral_yields he
          · exact fail_yields _
    | op => exact fail_yields _

theorem zero_written : (Number.Integer.text? 0).isSome = true := by
  have hzero : Number.Integer.read? [] = some 0 := by simp [Number.Integer.read?]
  exact Number.Integer.isSome_text?_of_read? hzero 0 rfl

theorem operandOf_yields (he : Reads expression .expression) (ho : Reads operand .expression)
    (hp : Reads primary .expression) :
    Reads (operandOf expression operand primary) .expression := by
  unfold operandOf
  refine (sees_yields _).bind ?_
  intro b _
  split
  · refine advance_yields.bind ?_
    intro minus _
    refine (sees_yields _).bind ?_
    intro b _
    split
    · refine advance_yields.bind ?_
      intro t _
      refine (integerOf_yields _).bind ?_
      intro n hn
      exact applied_yields he (.integer hn.2)
    · refine (sees_yields _).bind ?_
      intro b _
      split
      · refine advance_yields.bind ?_
        intro t _
        exact applied_yields he (.float trivial)
      · exact ho.bind fun _ hr => .pure (.binary (by decide) (.integer zero_written) hr)
  · exact hp.bind fun _ hn => applied_yields he hn

theorem chainOf_yields (hc : ∀ least, Reads (chain least) .expression)
    (ho : Reads operand .expression) (least : Nat) :
    Reads (chainOf chain operand least) .expression := by
  unfold chainOf
  refine ho.bind ?_
  intro left hl
  exact pending_yields.bind fun bound _ => climb_yields hc least bound left hl

theorem expressionOf_yields (he : Reads expression .expression)
    (hc : ∀ least, Reads (chain least) .expression) :
    Reads (expressionOf expression chain) .expression := by
  unfold expressionOf
  refine (hc 1).bind ?_
  intro left hl
  refine (sees_yields _).bind ?_
  intro b _
  split
  · dsimp only
    split
    · next ht =>
      refine advance_yields.bind ?_
      intro t _
      exact he.bind fun _ hv => .pure (.reassignment ht hl hv)
    · exact (fail_yields (P := fun _ => False) _).bind fun _ h => h.elim
  · exact .pure hl

theorem instructionOf_yields (he : Reads expression .expression)
    (hi : Reads instruction .instruction) (hc : Reads conditional .instruction)
    (hd : Reads declaration .declaration) :
    Reads (instructionOf expression instruction conditional declaration) .instruction := by
  have own : ∀ node, Fits True .declaration node ∧ node.isExported = false →
      Fits True .instruction node := fun _ h => .declared h.1 h.2
  refine terminated_yields ?_
  refine (or_yields (sees_yields _) (sees_yields _)).bind ?_
  intro b _
  split
  · refine (check_yields _ _).bind ?_
    intro b _
    split
    · exact destructuring_yields he
    · exact (variableDecl_yields he false).mono own
  · refine (and_yields (sees_yields _) (check_yields _ _)).bind ?_
    intro b _
    split
    · exact (functionDecl_yields he hi false).mono own
    · refine (sees_yields _).bind ?_
      intro b _
      split
      · exact (moduleDecl_yields hd false).mono own
      · refine (sees_yields _).bind ?_
        intro b _
        split
        · exact hc
        · refine (sees_yields _).bind ?_
          intro b _
          split
          · exact fail_yields _
          · refine (sees_yields _).bind ?_
            intro b _
            split
            · exact fail_yields _
            · exact he.mono fun _ h => .evaluated h

theorem declarationOf_yields (he : Reads expression .expression)
    (hi : Reads instruction .instruction) (hd : Reads declaration .declaration) :
    Reads (declarationOf expression instruction declaration) .declaration := by
  unfold declarationOf
  refine (skips_yields _).bind ?_
  intro isExported _
  refine (sees_yields _).bind ?_
  intro b _
  split
  · exact (functionDecl_yields he hi isExported).mono fun _ h => h.1
  · refine (or_yields (sees_yields _) (sees_yields _)).bind ?_
    intro b _
    split
    · refine (check_yields _ _).bind ?_
      intro b _
      dsimp only
      split
      · exact (fail_yields (P := fun _ => False) _).bind fun _ h => h.elim
      · exact (variableDecl_yields he isExported).mono fun _ h => h.1
    · refine (sees_yields _).bind ?_
      intro b _
      split
      · exact (moduleDecl_yields hd isExported).mono fun _ h => h.1
      · exact fail_yields _

end

/-! ## The constructs that contain themselves -/

/-- What the readers of a nesting depth yield. -/
structure ReadersFit (depth : Nat) : Prop where
  expression : Reads (expression depth) .expression
  chain : ∀ least, Reads (chain depth least) .expression
  operand : Reads (operand depth) .expression
  primary : Reads (primary depth) .expression
  instruction : Reads (instruction depth) .instruction
  conditional : Reads (conditional depth) .instruction
  declaration : Reads (declaration depth) .declaration

/-- At every nesting depth the readers give nodes that fit their place. -/
theorem readersFit (depth : Nat) : ReadersFit depth := by
  induction depth with
  | zero =>
    exact ⟨.overflow, fun _ => .overflow, .overflow, .overflow, .overflow, .overflow, .overflow⟩
  | succ depth ih =>
    exact
      { expression := expressionOf_yields ih.expression ih.chain
        chain := fun least => chainOf_yields ih.chain ih.operand least
        operand := operandOf_yields ih.expression ih.operand ih.primary
        primary := primaryOf_yields ih.expression ih.instruction
        instruction :=
          instructionOf_yields ih.expression ih.instruction ih.conditional ih.declaration
        conditional := conditionalOf_yields ih.expression ih.instruction ih.conditional
        declaration := declarationOf_yields ih.expression ih.instruction ih.declaration }

/-- So does the reader of top-level declarations. -/
theorem root_yields (depth : Nat) : Reads (root depth) .declaration :=
  terminated_yields (readersFit depth).declaration

/-! ## Whole programs -/

theorem rootsFrom_fits (depth : Nat) : ∀ (bound : List Token) (found : List Node)
    (stream : Stream), stream.Sound → (∀ node ∈ found, Fits True .declaration node) →
    ∀ node ∈ (rootsFrom depth bound found stream).1, Fits True .declaration node
  | bound, found, stream, hs, hfound => by
    unfold rootsFrom
    have kept : ∀ node ∈ found.reverse, Fits True .declaration node := by simpa using hfound
    have hfinished := finished_yields stream hs
    cases hr : finished stream with
    | error fault after => exact kept
    | ok ended after =>
      cases ended with
      | true => exact kept
      | false =>
        have hafter : after.Sound := hs.before (hfinished.of_ok hr).1
        have hroot := root_yields depth after hafter
        dsimp only
        cases hn : root depth after with
        | error fault final => exact kept
        | ok node final =>
          obtain ⟨hbefore, hnode⟩ := hroot.of_ok hn
          have hmore : ∀ n ∈ node :: found, Fits True .declaration n :=
            List.forall_mem_cons.mpr ⟨hnode, hfound⟩
          cases bound with
          | nil => exact fun n hn => hmore n (List.mem_reverse.mp hn)
          | cons t bound =>
            exact rootsFrom_fits depth bound (node :: found) final (hafter.before hbefore) hmore

/-- The declarations that are read from a source text fit, whether the reading is stopped or not. -/
theorem program_fits (depth : Nat) (source : String) :
    ∀ node ∈ (program depth source).1, Fits True .declaration node :=
  rootsFrom_fits depth _ [] _ (Stream.sound_ofSource source) (by simp)

end Scriptlet.Grammar
