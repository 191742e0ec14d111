import Scriptlet.Proofs.Depth
import Scriptlet.Proofs.Grammar.Take
import Scriptlet.Proofs.Token.Scan

/-!
# Reading undoes writing

Declarations that fit and hold no floats are read back from their text, whatever the nesting depth
is, if only it is large enough (`Grammar.program_print`). Lines aside, nothing is lost.

An expression in parentheses may stand before a call, a dot or a path, and then the reader of
operands goes on. So what is said of an operand (`Opens`) leaves open what is applied to it next.
-/

namespace Scriptlet.Grammar

open Token.Pattern Reader Node

/-! ## Expressions of a given depth -/

/-- The reader of operands takes the node and goes on with what is applied to it. -/
def Opens (depth : Nat) (node : Node) : Prop :=
  ∀ (qs : List Piece) (follow : List Piece → Prop) (Q : Node → Prop),
    (∀ n, Like node n → Takes (applied (expression depth) n) qs follow Q) →
      Takes (operand (depth + 1)) (node.spell ++ qs) follow Q

section Depth

variable {d : Nat} {node : Node} {p : Piece} {ps : List Piece} {P : Node → Prop}

theorem Opens.operand (h : Opens d node) :
    Takes (operand (d + 1)) node.spell Stops (Like node) := by
  rw [← List.append_nil node.spell]
  exact h [] Stops (Like node) fun n hn => applied_stops hn

theorem Opens.chain (h : Opens d node) (least : Nat) :
    Takes (chain (d + 2) least) node.spell Rests (Like node) :=
  chainOf_rests h.operand least

theorem Opens.whole (h : Opens d node) (fits : Fits False .expression node) :
    Whole (expression (d + 3)) node :=
  ⟨opens_spell fits, expressionOf_rests (h.chain 1)⟩

/-- An operand with nothing behind it is an expression. -/
theorem expression_of_operand (h : Takes (operand d) ps Stops P) :
    Takes (expression (d + 2)) ps Ends P :=
  expressionOf_rests (chainOf_rests h 1)

theorem operand_of_primary (hp : (op "-").admits p = false)
    (h : Takes (primary d) (p :: ps) anything P) : Takes (operand (d + 1)) (p :: ps) Stops P := by
  rw [← List.append_nil (p :: ps)]
  exact operandOf_takes hp h fun n hn => applied_stops hn

theorem expression_of_primary (hp : (op "-").admits p = false)
    (h : Takes (primary d) (p :: ps) anything P) :
    Takes (expression (d + 3)) (p :: ps) Ends P :=
  expression_of_operand (operand_of_primary hp h)

/-- A node in parentheses is an operand. -/
theorem opens_of_enclosed (hspell : node.spell = enclosed ps)
    (h : Takes (expression d) ps Ends (Like node)) : Opens (d + 1) node := by
  intro qs follow Q hn
  rw [hspell]
  exact operandOf_takes rfl (primaryOf_enclosed h) hn

theorem opens_of_single (fits : Fits False .expression node) (hspell : node.spell = [p])
    (hp : (op "-").admits p = false) : Opens (d + 1) node := by
  intro qs follow Q hn
  rw [hspell]
  exact operandOf_takes hp (primaryOf_single fits hspell) hn

theorem opens_integer {line : Nat} {n : Int} (written : (Number.Integer.text? n).isSome = true) :
    Opens (d + 1) (.integer line n) := by
  by_cases hn : n < 0
  · intro qs follow Q h
    exact operandOf_negative written hn h
  · have hspell : (Node.integer line n).spell =
        [⟨.integer, String.ofList (Number.Integer.digits n.natAbs)⟩] := if_neg hn
    exact opens_of_single (.integer written) hspell rfl

end Depth

/-! ## Whole texts -/

/-- The text is read to its end, as the given tree but for the lines. -/
def ReadsWhole (r : Reader Node) (text : String) (node : Node) : Prop :=
  ∃ found rest, r (Stream.ofSource text) = .ok found rest ∧
    rest.pending = [] ∧ rest.failure = none ∧ Like node found

/-- A text is read to its end if it scans to pieces that the reader takes where nothing follows. -/
theorem readsWhole_of_takes {r : Reader Node} {text : String} {ps : List Piece} {node : Node}
    (hscans : Token.Scans text.toList ps Lexeme.Clear) (h : Takes r ps Done (Like node)) :
    ReadsWhole r text node := by
  obtain ⟨ts, hscan, hts⟩ := Token.scan_of_scans hscans Lexeme.clear_nil
  obtain ⟨found, last, hfound, hlike⟩ := h ts [] none hts done_nil
  refine ⟨found, ⟨[], none, last⟩, ?_, rfl, rfl, hlike⟩
  rw [Stream.ofSource, hscan]
  rw [List.append_nil] at hfound
  exact hfound

/-! ## All trees -/

open Filter

/-- What the readers of a depth do with a node in its place. -/
def ReadsBack (depth : Nat) : Role → Node → Prop
  | .expression, node => Opens depth node
  | .instruction, node => TakesLine (instruction depth) node
  | .declaration, node => TakesLine (root depth) node ∧
      (node.isExported = false → TakesLine (instruction depth) node)

theorem eventually_whole {node : Node} (fits : Fits False .expression node)
    (h : ∀ᶠ depth in atTop, Opens depth node) :
    ∀ᶠ depth in atTop, Whole (expression depth) node :=
  eventually_of_add 3 (h.mono fun _ h => h.whole fits)

theorem eventually_chain {node : Node} (h : ∀ᶠ depth in atTop, Opens depth node) :
    ∀ᶠ depth in atTop, ∀ least, Takes (chain depth least) node.spell Rests (Like node) :=
  eventually_of_add 2 (h.mono fun _ h => h.chain)

theorem eventually_operand {node : Node} (h : ∀ᶠ depth in atTop, Opens depth node) :
    ∀ᶠ depth in atTop, Takes (operand depth) node.spell Stops (Like node) :=
  eventually_of_add 1 (h.mono fun _ h => h.operand)

/-- Lists of expressions. -/
theorem eventually_wholes {nodes : List Node} (fits : ∀ n ∈ nodes, Fits False .expression n)
    (h : ∀ n ∈ nodes, ∀ᶠ depth in atTop, Opens depth n) :
    ∀ᶠ depth in atTop, ∀ n ∈ nodes, Whole (expression depth) n :=
  eventually_forall_mem fun n hn => eventually_whole (fits n hn) (h n hn)

/-- Lists of instructions or declarations. -/
theorem eventually_lines {r : Nat → Reader Node} {role : Role} {nodes : List Node}
    (fits : ∀ n ∈ nodes, Fits False role n)
    (h : ∀ n ∈ nodes, ∀ᶠ depth in atTop, TakesLine (r depth) n) :
    ∀ᶠ depth in atTop, ∀ n ∈ nodes, Line (r depth) n :=
  eventually_forall_mem fun n hn => (h n hn).mono fun _ h => ⟨begins_spell (fits n hn), h⟩

/-- Every tree that fits is read back from its pieces, at every depth from some depth on. -/
theorem eventually_reads {role : Role} {node : Node} (h : Fits False role node) :
    ∀ᶠ depth in atTop, ReadsBack depth role node := by
  -- `eventually_of_add` counts the levels of readers between the node and its parts: an expression
  -- in parentheses is read by an operand and a primary, which take two, and so on
  induction h with
  | functionExpr _ listed hbody hresult body result =>
    refine eventually_of_add 5 ?_
    filter_upwards [eventually_lines hbody body, eventually_whole hresult result] with depth hb hr
    refine opens_of_enclosed (d := depth + 4) rfl (expression_of_primary rfl ?_)
    exact primaryOf_function listed hb hr
  | reassignment left _ hvalue target value =>
    refine eventually_of_add 2 ?_
    filter_upwards [eventually_chain target, eventually_whole hvalue value] with depth ht hv
    exact opens_of_enclosed (d := depth + 1) rfl (expressionOf_assignment left (ht 1) hv)
  | moduleAccess path _ _ module =>
    refine eventually_of_add 4 ?_
    filter_upwards [module] with depth hm
    refine opens_of_enclosed (d := depth + 3) rfl (expression_of_operand ?_)
    exact hm _ _ _ fun n hn => applied_takes (by simp) (application?_path path hn)
  | objectAccess _ _ target =>
    refine eventually_of_add 4 ?_
    filter_upwards [target] with depth ht
    refine opens_of_enclosed (d := depth + 3) rfl (expression_of_operand ?_)
    exact ht _ _ _ fun n hn => applied_takes (by simp) (application?_member hn)
  | binary known _ _ left right =>
    refine eventually_of_add 3 ?_
    filter_upwards [eventually_operand left, eventually_chain right] with depth hl hr
    refine opens_of_enclosed (d := depth + 2) rfl (expressionOf_rests ?_)
    exact chainOf_binary known hl (hr _)
  | call _ hargs callee args =>
    refine eventually_of_add 4 ?_
    filter_upwards [callee, eventually_wholes hargs args] with depth hc ha
    refine opens_of_enclosed (d := depth + 3) rfl (expression_of_operand ?_)
    exact hc _ _ _ fun n hn => applied_takes (by simp) (application?_call hn ha)
  | identifier named =>
    exact eventually_of_add 1 (.of_forall fun depth => opens_of_single (.identifier named) rfl rfl)
  | object hpairs pairs =>
    have hwhole := eventually_forall_mem fun pair hp =>
      eventually_whole (hpairs pair hp) (pairs pair hp)
    refine eventually_of_add 5 ?_
    filter_upwards [hwhole] with depth hp
    refine opens_of_enclosed (d := depth + 4) rfl (expression_of_primary rfl ?_)
    exact primaryOf_object hp
  | array helements elements =>
    refine eventually_of_add 5 ?_
    filter_upwards [eventually_wholes helements elements] with depth he
    refine opens_of_enclosed (d := depth + 4) rfl (expression_of_primary rfl ?_)
    exact primaryOf_array he
  | string =>
    exact eventually_of_add 1 (.of_forall fun depth => opens_of_single .string rfl rfl)
  | integer written =>
    exact eventually_of_add 1 (.of_forall fun depth => opens_integer written)
  | float allowed => exact allowed.elim
  | char =>
    exact eventually_of_add 1 (.of_forall fun depth => opens_of_single .char rfl rfl)
  | bool =>
    exact eventually_of_add 1 (.of_forall fun depth => opens_of_single .bool rfl rfl)
  | undefined =>
    exact eventually_of_add 1 (.of_forall fun depth => opens_of_single .undefined rfl rfl)
  | functionDecl _ listed hbody hresult body result =>
    refine eventually_of_add 1 ?_
    filter_upwards [eventually_lines hbody body, eventually_whole hresult result] with depth hb hr
    refine ⟨declarationOf_function listed hb hr, ?_⟩
    rintro rfl
    exact instructionOf_function listed hb hr
  | moduleDecl _ hbody body =>
    refine eventually_of_add 1 ?_
    filter_upwards [eventually_lines hbody fun d hd => (body d hd).mono fun _ h => h.1]
      with depth hb
    refine ⟨declarationOf_module hb, ?_⟩
    rintro rfl
    exact instructionOf_module hb
  | variableDecl _ hvalue value =>
    refine eventually_of_add 1 ?_
    filter_upwards [eventually_whole hvalue value] with depth hv
    refine ⟨declarationOf_variable hv, ?_⟩
    rintro rfl
    exact instructionOf_variable hv
  | evaluated hnode node =>
    refine eventually_of_add 1 ?_
    filter_upwards [eventually_whole hnode node] with depth hn
    exact instructionOf_expression hn
  | declared _ own node => exact node.mono fun _ hn => hn.2 own
  | destructuring _ hsource source =>
    refine eventually_of_add 1 ?_
    filter_upwards [eventually_whole hsource source] with depth hs
    exact instructionOf_destructuring hs
  | @conditional _ _ _ elseBody hcondition hbody helse condition body branch =>
    have halternative : ∀ᶠ depth in atTop, ∀ b ∈ elseBody, ∀ i ∈ b,
        Line (instruction depth) i := by
      cases elseBody with
      | none => exact .of_forall fun _ _ hb => nomatch hb
      | some b =>
        filter_upwards [eventually_lines (helse b rfl) (branch b rfl)] with depth hb
        rintro _ ⟨⟩
        exact hb
    refine eventually_of_add 2 ?_
    filter_upwards [eventually_whole hcondition condition, eventually_lines hbody body,
      halternative] with depth hc hb ha
    exact instructionOf_conditional (conditionalOf_takes hc hb ha)

/-! ## Whole programs -/

/-- The loop reads the declarations that are left, up to the end of the text. -/
theorem rootsFrom_takes {depth : Nat} :
    ∀ (nodes : List Node) (bound : List Token) (found : List Node) (ts : List Token)
      (last : Option Token), (∀ d ∈ nodes, TakesLine (root depth) d) →
      ts.map Token.piece = spellLines [] nodes → nodes.length ≤ bound.length →
      ∃ read after,
        rootsFrom depth bound found ⟨ts, none, last⟩ = (found.reverse ++ read, none, after) ∧
          read.map unlined = nodes.map unlined
  | [], bound, found, ts, last, _, hts, _ => by
    obtain rfl := List.map_eq_nil_iff.mp hts
    refine ⟨[], ⟨[], none, last⟩, ?_, rfl⟩
    rw [rootsFrom, finished_looks, List.append_nil]
    rfl
  | d :: nodes, bound, found, ts, last, h, hts, hb => by
    -- the tokens of the first declaration, and those of the others
    obtain ⟨ts₁, ts₂, rfl, h₁, h₂⟩ := List.map_eq_append_iff.mp hts
    obtain ⟨node, last₁, hnode, hlike⟩ := h d List.mem_cons_self ts₁ ts₂ last h₁ trivial
    have hmore : finished ⟨ts₁ ++ ts₂, none, last⟩ = .ok false ⟨ts₁ ++ ts₂, none, last⟩ := by
      rw [finished_looks, hts, spellLines]
      simp
    cases bound with
    | nil => simp at hb
    | cons t bound =>
      obtain ⟨read, after, hread, hmap⟩ := rootsFrom_takes nodes bound (node :: found) ts₂ last₁
        (fun e he => h e (List.mem_cons_of_mem d he)) h₂ (by simpa using hb)
      refine ⟨node :: read, after, ?_, ?_⟩
      · rw [rootsFrom, hmore]
        dsimp only
        rw [hnode]
        dsimp only
        rw [hread, List.reverse_cons, List.append_assoc, List.singleton_append]
      · rw [List.map_cons, List.map_cons, hmap, hlike]

/-- Reading undoes writing: declarations that fit and hold no floats are read back from their text
at every depth from some depth on, with nothing different but the lines. -/
theorem program_print {nodes : List Node} (h : ∀ d ∈ nodes, Fits False .declaration d) :
    ∃ least, ∀ depth, least ≤ depth → ∃ read,
      program depth (print nodes) = (read, none) ∧ read.map unlined = nodes.map unlined := by
  have hproper : AllProper (spellLines [] nodes) :=
    .spellLines (fun d hd => (h d hd).proper) .nil
  obtain ⟨ts, hscan, hts⟩ := Token.scan_render hproper
  obtain ⟨least, hleast⟩ := eventually_atTop.mp
    (eventually_forall_mem fun d hd => eventually_reads (h d hd))
  refine ⟨least, ?_⟩
  intro depth hdepth
  have hlength : nodes.length ≤ ts.length := by
    rw [← List.length_map Token.piece, hts, spellLines_eq]
    exact length_le_joined [] fun d _ _ => by simp [line]
  obtain ⟨read, after, hread, hmap⟩ := rootsFrom_takes nodes ts [] ts none
    (fun d hd => (hleast depth hdepth d hd).1) hts hlength
  refine ⟨read, ?_, hmap⟩
  rw [program, roots, Stream.ofSource, print, hscan]
  dsimp only
  rw [hread]
  rfl

/-- A variable that holds a function which assigns to a property. -/
theorem program_print_function : ∃ least, ∀ depth, least ≤ depth → ∃ read,
    program depth (print [.variableDecl 1 "set" true (.functionExpr 1 [⟨"o", false⟩, ⟨"vs", true⟩]
      [.reassignment 2 (.objectAccess 2 (.identifier 2 "o") "in") (.identifier 2 "vs")]
      (.integer 3 (-1)) "anonymous") true]) = (read, none) ∧
    read.map unlined =
      [.variableDecl 0 "set" true (.functionExpr 0 [⟨"o", false⟩, ⟨"vs", true⟩]
        [.reassignment 0 (.objectAccess 0 (.identifier 0 "o") "in") (.identifier 0 "vs")]
        (.integer 0 (-1)) "anonymous") true] := by
  refine program_print ?_
  rw [List.forall_mem_singleton]
  have listed : Param.Listed [⟨"o", false⟩, ⟨"vs", true⟩] := ⟨by decide, by decide, by decide⟩
  refine .variableDecl (by decide) (.functionExpr (by decide) listed ?_ ?_)
  · rw [List.forall_mem_singleton]
    refine .evaluated (.reassignment rfl (.objectAccess ?_ (by decide)) ?_)
    · exact .identifier (by decide)
    · exact .identifier (by decide)
  · have hone : Number.Integer.read? ['1'] = some 1 := by
      rw [Number.Integer.read?, Number.Integer.digitLimit]
      rfl
    exact .integer (Number.Integer.isSome_text?_of_read? hone _ rfl)

example : print [.variableDecl 1 "x" false (.binary 1 .sub (.integer 1 (-1)) (.char 1 "'")) true] =
    "export var x = ( - 1 - '\\'' ) ; " := by
  rfl

end Scriptlet.Grammar
