import Scriptlet.Node.Grammar
import Scriptlet.Proofs.Node.Spell
import Scriptlet.Proofs.Token.Take

/-!
# What the readers take

For every construct of the grammar, the pieces that its reader takes and the node that it gives.
The lemmas stand in the order of the grammar. As there, the readers of the parts are arguments, and
what they take is a hypothesis (`Whole` for expressions, `Line` for instructions and declarations).

What follows a construct matters, since many of them could go on: `Ends`, `Rests` and `Stops` say of
the pieces to come what an expression, an operand chain and an operand ask of them.
-/

namespace Scriptlet.Grammar

open Token.Pattern Reader Node

/-- The same node, lines aside. -/
abbrev Like (node : Node) : Node → Prop := fun n => n.unlined = node.unlined

/-- A mark comes next, and none that an expression could go on with. -/
def Ends (rs : List Piece) : Prop := ∃ c tail, rs = Piece.punct c :: tail ∧ c ≠ "(" ∧ c ≠ "."

/-- The reader takes an expression, up to a mark that ends it. -/
structure Whole (r : Reader Node) (node : Node) : Prop where
  head : ∃ p ps, node.spell = p :: ps ∧ opens p = true
  takes : Takes r node.spell Ends (Like node)

/-- The reader takes an instruction or declaration and its semicolon. -/
abbrev TakesLine (r : Reader Node) (node : Node) : Prop := Takes r node.line anything (Like node)

/-- It does, and the first piece shows that something comes. -/
structure Line (r : Reader Node) (node : Node) : Prop where
  head : ∃ p ps, node.spell = p :: ps ∧ begins p = true
  takes : TakesLine r node

variable {expression instruction conditional declaration : Reader Node}

/-! ## Parts of functions -/

theorem integerOf_takes {text : String} {n : Nat} (h : Number.Integer.read? text.toList = some n) :
    Takes (integerOf text) [] anything (· = (n : Int)) := by
  unfold integerOf
  simp only [h]
  exact Takes.pure rfl

/-- No parameter before has the name of a parameter. -/
theorem any_name_eq_false {before rest found : List Param} {p : Param}
    (listed : Param.Listed (before ++ p :: rest)) (hfound : found.reverse = before) :
    found.any (·.name == p.name) = false := by
  have hd := listed.distinct
  rw [List.map_append, List.map_cons, List.nodup_append] at hd
  rw [List.any_eq_false]
  intro q hq he
  have hbefore : q ∈ before := hfound ▸ List.mem_reverse.mpr hq
  refine hd.2.2 q.name (List.mem_map.mpr ⟨q, hbefore, rfl⟩) p.name List.mem_cons_self ?_
  simpa using he

/-- A rest parameter comes last. -/
theorem eq_nil_of_isRest {before rest : List Param} {p : Param}
    (listed : Param.Listed (before ++ p :: rest)) (hr : p.isRest = true) : rest = [] := by
  cases rest with
  | nil => rfl
  | cons q rest =>
    have hp : p ∈ (before ++ p :: q :: rest).dropLast := by simp
    rw [listed.single p hp] at hr
    cases hr

/-- One parameter and the comma behind it. -/
theorem param_takes {before rest found : List Param} {p : Param}
    (listed : Param.Listed (before ++ p :: rest)) (hfound : found.reverse = before)
    {own : Param → List Param → List Piece} :
    Takes (param found) (p.spell ++ Piece.comma rest)
      (fun rs => ∃ tail, rs = Piece.joined own [.punct ")"] rest ++ tail) (· = p) := by
  have finish : ∀ t : Token, t.piece = .name p.name →
      Takes (do separator (punct ")"); return ⟨t.text, p.isRest⟩) (Piece.comma rest)
        (fun rs => ∃ tail, rs = Piece.joined own [.punct ")"] rest ++ tail) (· = p) := by
    intro t ht
    rw [← List.append_nil (Piece.comma rest)]
    refine Takes.bind (separator_takes rfl rfl rest) (fun _ _ => Takes.pure ?_) fun _ h => h
    rw [text_of_piece ht]
  have fresh : ∀ t : Token, t.piece = .name p.name →
      ¬ found.any (·.name == t.text) = true := by
    intro t ht
    rw [text_of_piece ht, any_name_eq_false listed hfound]
    exact Bool.false_ne_true
  unfold param Param.spell
  cases hr : p.isRest with
  | true =>
    rw [hr] at finish
    rw [if_pos rfl]
    refine Takes.cons (skips_takes rfl) ?_
    rintro b rfl
    refine Takes.cons (expectAs_takes rfl _) ?_
    intro t ht
    dsimp only
    rw [if_neg (fresh t ht), if_pos rfl]
    -- nothing is left but the closing parenthesis
    obtain rfl := eq_nil_of_isRest listed hr
    refine Takes.look (sees_looks _) (a := true) (finish t ht) ?_
    rintro rs ⟨tail, rfl⟩
    rfl
  | false =>
    rw [hr] at finish
    rw [if_neg Bool.false_ne_true]
    refine Takes.pass (skips_passes _) ?_ fun _ _ => rfl
    rintro b rfl
    refine Takes.cons (expectAs_takes rfl _) ?_
    intro t ht
    dsimp only
    rw [if_neg (fresh t ht), if_neg Bool.false_ne_true]
    exact finish t ht

theorem params_takes {ps : List Param} (listed : Param.Listed ps) :
    Takes params (.punct "(" :: commas Param.spell (.punct ")") ps) anything (· = ps) := by
  unfold params
  refine Takes.cons (expect_takes rfl) ?_
  intro _ _
  refine Takes.mono (listUntil_takes (f := id) (g := id) rfl ?_ ?_) (fun _ h => h) ?_
  · intro p _ rest
    unfold Param.spell
    split
    · exact ⟨_, _, rfl, rfl⟩
    · exact ⟨_, _, rfl, rfl⟩
  · intro before p rest found hps hfound
    rw [List.map_id, List.map_id] at hfound
    exact param_takes (hps ▸ listed) hfound
  · intro as has
    rwa [List.map_id, List.map_id] at has

theorem ends_punct {c : String} (h : c ≠ "(" ∧ c ≠ ".") (tail : List Piece) :
    Ends (.punct c :: tail) :=
  ⟨c, tail, rfl, h⟩

/-- A return statement with a value. -/
theorem returnStatement_takes {result : Node} (h : Whole expression result) :
    Takes (returnStatement expression) (.keyword "return" :: (result.spell ++ [.punct ";"]))
      anything (Like result) := by
  obtain ⟨q, qs, hq, ho⟩ := h.head
  unfold returnStatement
  refine Takes.cons (expect_takes rfl) ?_
  intro _ _
  refine Takes.look (or_looks (sees_looks _) (sees_looks _)) (a := false) ?_ ?_
  · refine Takes.bind h.takes ?_ fun rs _ => ends_punct (by decide) rs
    intro value hvalue
    exact Takes.cons (accept_takes rfl) fun _ _ => Takes.pure hvalue
  · intro rs _
    rw [hq, List.append_assoc, List.cons_append]
    exact Bool.or_eq_false_iff.mpr ⟨admits_eq_false ho rfl, admits_eq_false ho rfl⟩

/-- The loop takes the instructions that are left, and the return statement. -/
theorem bodyUntilBrace_takes {result : Node} (h : Whole expression result) :
    ∀ (body : List Node) (bound : List Token) (found : List Node),
      (∀ i ∈ body, Line instruction i) → body.length ≤ bound.length →
      Takes (bodyUntilBrace expression instruction bound found)
        (spellLines (returnPieces result.spell) body) anything
        fun r => r.1.map unlined = (found.reverse ++ body).map unlined ∧ Like result r.2
  | [], bound, found, _, _ => by
    unfold bodyUntilBrace spellLines returnPieces
    refine Takes.unskipped rfl (Takes.seen rfl ?_)
    refine Takes.bind (returnStatement_takes h) ?_ fun _ _ => trivial
    intro value hvalue
    refine Takes.cons (skips_takes rfl) ?_
    rintro b rfl
    refine Takes.pure ⟨?_, hvalue⟩
    rw [List.append_nil]
  | i :: body, bound, found, hbody, hb => by
    obtain ⟨q, qs, hq, ho⟩ := (hbody i List.mem_cons_self).head
    have hhead : spellLines (returnPieces result.spell) (i :: body) =
        q :: (qs ++ [.punct ";"] ++ spellLines (returnPieces result.spell) body) := by
      rw [spellLines, hq]
      rfl
    -- an instruction begins neither with the brace nor with the keyword
    unfold bodyUntilBrace
    rw [hhead]
    refine Takes.unskipped (admits_eq_false ho rfl) (Takes.unseen (admits_eq_false ho rfl) ?_)
    rw [← hhead]
    refine Takes.bind (hbody i List.mem_cons_self).takes ?_ fun _ _ => trivial
    intro node hnode
    cases bound with
    | nil => simp at hb
    | cons t bound =>
      refine Takes.mono (bodyUntilBrace_takes h body bound (node :: found) ?_ ?_) (fun _ h => h) ?_
      · exact fun j hj => hbody j (List.mem_cons_of_mem i hj)
      · simpa using hb
      · rintro r ⟨hr, hresult⟩
        refine ⟨?_, hresult⟩
        rw [hr, List.reverse_cons, List.append_assoc, List.map_append, List.map_append]
        simp [hnode]

theorem functionBody_takes {body : List Node} {result : Node}
    (hbody : ∀ i ∈ body, Line instruction i) (h : Whole expression result) :
    Takes (functionBody expression instruction)
      (.punct "\x7b" :: spellLines (returnPieces result.spell) body) anything
      fun r => r.1.map unlined = body.map unlined ∧ Like result r.2 := by
  unfold functionBody
  refine Takes.unskipped rfl (Takes.cons (expectAs_takes rfl _) ?_)
  intro _ _
  refine Takes.pending_bind ?_
  intro bound hb
  refine bodyUntilBrace_takes h body bound [] hbody ?_
  rw [spellLines_eq] at hb
  exact Nat.le_trans (length_le_joined _ fun i _ _ => by simp [line]) hb

theorem functionExpr_takes {line : Nat} {name : String} {ps : List Param} {body : List Node}
    {result : Node} (listed : Param.Listed ps)
    (hbody : ∀ i ∈ body, Line instruction i) (h : Whole expression result) :
    Takes (functionExpr expression instruction)
      (functionPieces name ps (spellLines (returnPieces result.spell) body)) anything
      (Like (.functionExpr line ps body result name)) := by
  unfold functionExpr functionPieces
  refine Takes.cons (expect_takes rfl) ?_
  intro t _
  refine Takes.cons (accept_takes rfl) ?_
  intro o ho
  rw [← List.cons_append]
  refine Takes.bind (params_takes listed) ?_ fun _ _ => trivial
  rintro _ rfl
  refine Takes.map (functionBody_takes hbody h) ?_
  rintro ⟨nodes, value⟩ ⟨hnodes, hvalue⟩
  obtain ⟨u, rfl, hu⟩ := Option.map_eq_some_iff.mp ho
  have htext := text_of_piece hu
  simp [Like, unlined, hnodes, htext, hvalue]

/-! ## Declarations -/

theorem functionDecl_takes {line : Nat} {name : String} {ps : List Param} {body : List Node}
    {result : Node} {isExported : Bool} (listed : Param.Listed ps)
    (hbody : ∀ i ∈ body, Line instruction i) (h : Whole expression result) :
    Takes (functionDecl expression instruction isExported)
      (functionPieces name ps (spellLines (returnPieces result.spell) body)) anything
      (Like (.functionDecl line name ps body result isExported)) := by
  unfold functionDecl functionPieces
  refine Takes.cons (expect_takes rfl) ?_
  intro t _
  refine Takes.cons (expectAs_takes rfl _) ?_
  intro u hu
  rw [← List.cons_append]
  refine Takes.bind (params_takes listed) ?_ fun _ _ => trivial
  rintro _ rfl
  refine Takes.map (functionBody_takes hbody h) ?_
  rintro ⟨nodes, value⟩ ⟨hnodes, hvalue⟩
  have htext := text_of_piece hu
  simp [Like, unlined, hnodes, htext, hvalue]

/-- Whether a variable is constant is seen from its keyword. -/
theorem text_variablePiece {t : Token} {isConst : Bool} (h : t.piece = variablePiece isConst) :
    (t.text == "const") = isConst := by
  have htext : t.text = if isConst then "const" else "var" := congrArg Piece.text h
  rw [htext]
  cases isConst <;> rfl

theorem variableDecl_takes {line : Nat} {name : String} {isConst isExported : Bool} {value : Node}
    (h : Whole expression value) :
    Takes (variableDecl expression isExported)
      (variablePiece isConst :: .name name :: .op "=" :: value.spell) Ends
      (Like (.variableDecl line name isConst value isExported)) := by
  unfold variableDecl
  refine Takes.cons (advance_takes _) ?_
  intro t ht
  refine Takes.cons (expectAs_takes rfl _) ?_
  intro u hu
  refine Takes.cons (expect_takes rfl) ?_
  intro _ _
  refine Takes.map h.takes ?_
  intro v hv
  have htext := text_of_piece hu
  simp [Like, unlined, htext, text_variablePiece ht, hv]

theorem destructuring_takes {line : Nat} {names : List String} {isConst : Bool} {source : Node}
    (h : Whole expression source) :
    Takes (destructuring expression) (Node.destructuring line names isConst source).spell Ends
      (Like (.destructuring line names isConst source)) := by
  unfold destructuring Node.spell
  refine Takes.cons (advance_takes _) ?_
  intro t ht
  refine Takes.cons (expect_takes rfl) ?_
  intro _ _
  have hname : ∀ x ∈ names, Takes (do
      return (← expectAs (any .name) (.described "property name")).text) [.name x] anything
      (· = x) :=
    fun x _ => Takes.map (expectAs_takes rfl _) fun u hu => text_of_piece hu
  refine Takes.bind (commaList_takes (f := id) (g := id) rfl rfl (fun x _ => ⟨_, _, rfl, rfl⟩) hname
    (fun _ => trivial) fun _ => trivial) ?_ fun _ _ => trivial
  intro found hfound
  rw [List.map_id, List.map_id] at hfound
  refine Takes.cons (expect_takes rfl) ?_
  intro _ _
  refine Takes.map h.takes ?_
  intro v hv
  simp [Like, unlined, hfound, text_variablePiece ht, hv]

/-- An instruction or declaration and its semicolon. -/
theorem terminated_takes {r : Reader Node} {ps : List Piece} {P : Node → Prop}
    (h : Takes r ps Ends P) : Takes (terminated r) (ps ++ [.punct ";"]) anything P := by
  unfold terminated
  refine Takes.bind h ?_ fun rs _ => ends_punct (by decide) rs
  intro node hnode
  exact Takes.cons (accept_takes rfl) fun _ _ => Takes.pure hnode

/-- Instructions or declarations up to a brace. -/
theorem lines_take {r : Reader Node} {nodes : List Node} (problem : Problem)
    (h : ∀ n ∈ nodes, Line r n) :
    Takes (listUntil (punct "\x7d") fun _ => do
        if ← finished then fail problem
        r)
      (spellLines [.punct "\x7d"] nodes) anything
      fun found => found.map unlined = nodes.map unlined := by
  rw [spellLines_eq]
  refine listUntil_takes rfl ?_ ?_
  · intro n hn rest
    obtain ⟨q, qs, hq, ho⟩ := (h n hn).head
    exact ⟨q, qs ++ [.punct ";"], by rw [line, hq, List.cons_append], admits_eq_false ho rfl⟩
  · intro before n rest found hnodes _
    have hn : n ∈ nodes := by simp [hnodes]
    refine Takes.look finished_looks (a := false) (h n hn).takes.of_anything ?_
    intro rs _
    simp [line]

theorem moduleDecl_takes {line : Nat} {name : String} {body : List Node} {isExported : Bool}
    (h : ∀ d ∈ body, Line (terminated declaration) d) :
    Takes (moduleDecl declaration isExported)
      (.keyword "module" :: .name name :: .punct "\x7b" :: spellLines [.punct "\x7d"] body) anything
      (Like (.moduleDecl line name body isExported)) := by
  unfold moduleDecl
  refine Takes.cons (expect_takes rfl) ?_
  intro t _
  refine Takes.cons (expectAs_takes rfl _) ?_
  intro u hu
  refine Takes.cons (expect_takes rfl) ?_
  intro _ _
  refine Takes.map (lines_take _ h) ?_
  intro found hfound
  have htext := text_of_piece hu
  simp [Like, unlined, hfound, htext]

/-! ## Statements -/

theorem block_takes {body : List Node} (h : ∀ i ∈ body, Line instruction i) :
    Takes (block instruction) (.punct "\x7b" :: spellLines [.punct "\x7d"] body) anything
      fun found => found.map unlined = body.map unlined := by
  unfold block
  refine Takes.cons (expectAs_takes rfl _) ?_
  intro _ _
  exact lines_take _ h

theorem conditionalOf_takes {line : Nat} {condition : Node} {body : List Node}
    {elseBody : Option (List Node)} (hcondition : Whole expression condition)
    (h : ∀ i ∈ body, Line instruction i)
    (helse : ∀ branch ∈ elseBody, ∀ i ∈ branch, Line instruction i) :
    Takes (conditionalOf expression instruction conditional)
      (Node.conditional line condition body elseBody).spell Ends
      (Like (.conditional line condition body elseBody)) := by
  unfold conditionalOf Node.spell
  refine Takes.cons (expect_takes rfl) ?_
  intro t _
  refine Takes.bind hcondition.takes ?_ fun rs _ => ends_punct (by decide) _
  intro c hc
  rw [← List.cons_append]
  refine Takes.bind (block_takes h) ?_ fun _ _ => trivial
  intro found hfound
  cases elseBody with
  | none =>
    -- whatever ends the instruction, it is not the keyword
    refine Takes.pass (skips_passes _) ?_ ?_
    · rintro b rfl
      refine Takes.pure ?_
      simp [Like, unlined, unlinedElse, hfound, hc]
    · rintro _ ⟨mark, tail, rfl, _⟩
      rfl
  | some branch =>
    refine Takes.skipped rfl (Takes.unseen rfl ?_)
    refine Takes.map (block_takes (helse branch rfl)).of_anything ?_
    intro alternative ha
    simp [Like, unlined, unlinedElse, hfound, ha, hc]

/-! ## What is applied to an operand -/

/-- Nothing that comes next can be applied to an operand. -/
def Stops (rs : List Piece) : Prop :=
  rs[0]?.any (punct "(").admits = false ∧ rs[0]?.any (punct ".").admits = false ∧
    rs[0]?.any (op "::").admits = false

theorem application?_stops (node : Node) :
    Takes (application? expression node) [] Stops (· = none) := by
  unfold application?
  refine Takes.look (sees_looks _) (a := false) ?_ fun _ h => h.1
  refine Takes.look (sees_looks _) (a := false) ?_ fun _ h => h.2.1
  refine Takes.look (sees_looks _) (a := false) ?_ fun _ h => h.2.2
  exact Takes.pure rfl

theorem applications_stops {node : Node} {P : Node → Prop} (bound : List Token) (h : P node) :
    Takes (applications expression bound node) [] Stops P := by
  unfold applications
  refine Takes.pass (application?_stops node) ?_ fun _ h => h
  rintro o rfl
  exact Takes.pure h

theorem applied_stops {node : Node} {P : Node → Prop} (h : P node) :
    Takes (applied expression node) [] Stops P :=
  Takes.pending_bind fun bound _ => applications_stops bound h

/-- One thing is applied to an operand, and nothing behind it. -/
theorem applied_takes {node : Node} {ps : List Piece} {P : Node → Prop} (hps : ps ≠ [])
    (h : Takes (application? expression node) ps anything fun o => ∃ n, o = some n ∧ P n) :
    Takes (applied expression node) ps Stops P := by
  refine Takes.pending_bind ?_
  intro bound hb
  unfold applications
  rw [← List.append_nil ps]
  refine Takes.bind h ?_ fun _ _ => trivial
  rintro _ ⟨n, rfl, hn⟩
  cases bound with
  | nil => exact absurd (List.length_eq_zero_iff.mp (Nat.le_zero.mp hb)) hps
  | cons t bound => exact applications_stops bound hn

theorem args_takes {nodes : List Node} (h : ∀ a ∈ nodes, Whole expression a) :
    Takes (args expression) (.punct "(" :: spellAll (.punct ")") nodes) anything
      fun found => found.map unlined = nodes.map unlined := by
  unfold args
  rw [spellAll_eq]
  refine Takes.cons (expect_takes rfl) ?_
  intro _ _
  refine commaList_takes rfl rfl ?_ (fun a ha => (h a ha).takes)
    (fun rs => ends_punct (by decide) rs) fun rs => ends_punct (by decide) rs
  intro a ha
  obtain ⟨q, qs, hq, ho⟩ := (h a ha).head
  exact ⟨q, qs, hq, admits_eq_false ho rfl⟩

theorem application?_call {line : Nat} {callee node : Node} {nodes : List Node}
    (hnode : Like callee node) (h : ∀ a ∈ nodes, Whole expression a) :
    Takes (application? expression node) (.punct "(" :: spellAll (.punct ")") nodes) anything
      fun o => ∃ n, o = some n ∧ Like (.call line callee nodes) n := by
  unfold application?
  refine Takes.seen rfl (Takes.peeked ?_)
  intro place
  refine Takes.map (args_takes h) ?_
  intro found hfound
  refine ⟨_, rfl, ?_⟩
  simp [Like, unlined, hfound, hnode]

theorem application?_member {line : Nat} {target node : Node} {member : String}
    (hnode : Like target node) :
    Takes (application? expression node) [.punct ".", .word member] anything
      fun o => ∃ n, o = some n ∧ Like (.objectAccess line target member) n := by
  unfold application?
  refine Takes.unseen rfl (Takes.seen rfl ?_)
  refine Takes.cons (advance_takes _) ?_
  intro dot _
  refine Takes.peeked ?_
  intro place
  dsimp only
  rw [if_pos (Piece.kind_word member)]
  refine Takes.map (advance_takes _) ?_
  intro t ht
  have htext := text_of_piece ht
  refine ⟨_, rfl, ?_⟩
  simp [Like, unlined, htext, hnode]

theorem application?_path {line : Nat} {module node : Node} {member : String}
    (path : module.isPath = true) (hnode : Like module node) :
    Takes (application? expression node) [.op "::", .name member] anything
      fun o => ∃ n, o = some n ∧ Like (.moduleAccess line module member) n := by
  have hpath : node.isPath = true := by
    rw [← isPath_unlined, hnode, isPath_unlined, path]
  unfold application?
  refine Takes.unseen rfl (Takes.unseen rfl (Takes.seen rfl ?_))
  rw [if_pos hpath]
  refine Takes.cons (advance_takes _) ?_
  intro colons _
  refine Takes.map (expectAs_takes rfl _) ?_
  intro t ht
  have htext := text_of_piece ht
  refine ⟨_, rfl, ?_⟩
  simp [Like, unlined, htext, hnode]

/-! ## Operands -/

/-- A key, however it is written, and its value. -/
theorem property_takes {key : Piece} {ps : List Piece} {follow : List Piece → Prop}
    {P : Node → Prop} (hkey : key.kind = .name ∨ key.kind = .keyword ∨ key.kind = .string)
    (h : Takes expression ps follow P) :
    Takes (property expression) (key :: .punct ":" :: ps) follow
      fun found => found.1 = key.text ∧ P found.2 := by
  unfold property
  refine Takes.peeked ?_
  intro place
  dsimp only
  rw [if_pos hkey]
  refine Takes.cons (advance_takes _) ?_
  intro t ht
  refine Takes.cons (expect_takes rfl) ?_
  intro _ _
  exact Takes.map h fun value hvalue => ⟨text_of_piece ht, hvalue⟩

theorem objectLiteral_takes {ι : Type} {line : Nat} {items : List ι} {spell : ι → List Piece}
    (pair : ι → String × Node)
    (heads : ∀ x ∈ items, ∃ q qs, spell x = q :: qs ∧ (punct "\x7d").admits q = false)
    (h : ∀ x ∈ items, Takes (property expression) (spell x) Ends
      fun found => found.1 = (pair x).1 ∧ Like (pair x).2 found.2) :
    Takes (objectLiteral expression) (.punct "\x7b" :: commas spell (.punct "\x7d") items) anything
      (Like (.object line (items.map pair))) := by
  have hitem : ∀ x ∈ items, Takes (property expression) (spell x) Ends
      fun found => (found.1, found.2.unlined) = ((pair x).1, (pair x).2.unlined) :=
    fun x hx => (h x hx).mono (fun _ h => h) fun _ hfound => Prod.ext hfound.1 hfound.2
  unfold objectLiteral
  refine Takes.cons (expect_takes rfl) ?_
  intro t _
  refine Takes.map (commaList_takes rfl rfl heads hitem (fun rs => ends_punct (by decide) rs)
    fun rs => ends_punct (by decide) rs) ?_
  intro found hfound
  simp [Like, unlined, hfound]

theorem arrayLiteral_takes {ι : Type} {line : Nat} {items : List ι} {spell : ι → List Piece}
    (node : ι → Node)
    (heads : ∀ x ∈ items, ∃ q qs, spell x = q :: qs ∧ (punct "]").admits q = false)
    (h : ∀ x ∈ items, Takes expression (spell x) Ends (Like (node x))) :
    Takes (arrayLiteral expression) (.punct "[" :: commas spell (.punct "]") items) anything
      (Like (.array line (items.map node))) := by
  unfold arrayLiteral
  refine Takes.cons (expect_takes rfl) ?_
  intro t _
  refine Takes.map (commaList_takes rfl rfl heads h (fun rs => ends_punct (by decide) rs)
    fun rs => ends_punct (by decide) rs) ?_
  intro found hfound
  simp [Like, unlined, hfound]

theorem parenthesised_takes {inside : List Piece} {P : Node → Prop}
    (h : Takes expression inside Ends P) :
    Takes (parenthesised expression) (enclosed inside) anything P := by
  unfold parenthesised enclosed
  refine Takes.cons (advance_takes _) ?_
  intro _ _
  refine Takes.bind h ?_ fun rs _ => ends_punct (by decide) rs
  intro node hnode
  exact Takes.cons (expect_takes rfl) fun _ _ => Takes.pure hnode

/-- Literals and names of a single piece. -/
theorem primaryOf_single {p : Piece} {node : Node} (h : Fits False .expression node)
    (hspell : node.spell = [p]) :
    Takes (primaryOf expression instruction) [p] anything (Like node) := by
  unfold primaryOf
  refine Takes.peeked ?_
  intro place
  cases h with
  | identifier named =>
    cases hspell
    exact Takes.cons (advance_takes _) fun _ _ => Takes.pure rfl
  | string =>
    cases hspell
    exact Takes.cons (advance_takes _) fun _ _ => Takes.pure rfl
  | @integer _ n written =>
    rw [Node.spell, integerPieces] at hspell
    split at hspell
    · cases hspell
    · next hn =>
      cases hspell
      refine Takes.cons (advance_takes _) ?_
      intro _ _
      refine Takes.map (integerOf_takes (n := n.natAbs) ?_) ?_
      · rw [String.toList_ofList]
        exact Number.Integer.read?_digits written
      · rintro m rfl
        simp only [Like, unlined, Node.integer.injEq, true_and]
        omega
  | float allowed => exact allowed.elim
  | char =>
    cases hspell
    exact Takes.cons (advance_takes _) fun _ _ => Takes.pure rfl
  | @bool _ b =>
    cases hspell
    cases b
    · exact Takes.cons (advance_takes _) fun _ _ => Takes.pure rfl
    · exact Takes.cons (advance_takes _) fun _ _ => Takes.pure rfl
  | undefined =>
    cases hspell
    exact Takes.cons (advance_takes _) fun _ _ => Takes.pure rfl
  | _ => simp [Node.spell, enclosed] at hspell

theorem primaryOf_enclosed {inside : List Piece} {P : Node → Prop}
    (h : Takes expression inside Ends P) :
    Takes (primaryOf expression instruction) (enclosed inside) anything P := by
  unfold primaryOf
  refine Takes.peeked ?_
  intro place
  exact parenthesised_takes h

theorem primaryOf_braces {ps : List Piece} {P : Node → Prop}
    (h : Takes (objectLiteral expression) (.punct "\x7b" :: ps) anything P) :
    Takes (primaryOf expression instruction) (.punct "\x7b" :: ps) anything P := by
  unfold primaryOf
  refine Takes.peeked ?_
  intro place
  exact h

theorem primaryOf_brackets {ps : List Piece} {P : Node → Prop}
    (h : Takes (arrayLiteral expression) (.punct "[" :: ps) anything P) :
    Takes (primaryOf expression instruction) (.punct "[" :: ps) anything P := by
  unfold primaryOf
  refine Takes.peeked ?_
  intro place
  exact h

theorem primaryOf_object {line : Nat} {pairs : List (String × Node)}
    (h : ∀ pair ∈ pairs, Whole expression pair.2) :
    Takes (primaryOf expression instruction) (.punct "\x7b" :: spellPairs pairs) anything
      (Like (.object line pairs)) := by
  have hliteral : Takes (objectLiteral expression)
      (.punct "\x7b" :: commas pairPieces (.punct "\x7d") pairs) anything
      (Like (.object line (pairs.map id))) :=
    objectLiteral_takes id (fun _ _ => ⟨_, _, rfl, rfl⟩)
      fun pair hp => property_takes (Or.inr (Or.inr rfl)) (h pair hp).takes
  rw [List.map_id] at hliteral
  rw [spellPairs_eq]
  exact primaryOf_braces hliteral

theorem primaryOf_array {line : Nat} {nodes : List Node}
    (h : ∀ a ∈ nodes, Whole expression a) :
    Takes (primaryOf expression instruction) (.punct "[" :: spellAll (.punct "]") nodes) anything
      (Like (.array line nodes)) := by
  have hliteral : Takes (arrayLiteral expression)
      (.punct "[" :: commas spell (.punct "]") nodes) anything
      (Like (.array line (nodes.map id))) := by
    refine arrayLiteral_takes id ?_ fun a ha => (h a ha).takes
    intro a ha
    obtain ⟨q, qs, hq, ho⟩ := (h a ha).head
    exact ⟨q, qs, hq, admits_eq_false ho rfl⟩
  rw [List.map_id] at hliteral
  rw [spellAll_eq]
  exact primaryOf_brackets hliteral

theorem primaryOf_function {line : Nat} {name : String} {ps : List Param} {body : List Node}
    {result : Node} (listed : Param.Listed ps)
    (hbody : ∀ i ∈ body, Line instruction i) (h : Whole expression result) :
    Takes (primaryOf expression instruction)
      (functionPieces name ps (spellLines (returnPieces result.spell) body)) anything
      (Like (.functionExpr line ps body result name)) := by
  unfold primaryOf
  refine Takes.peeked ?_
  intro place
  exact functionExpr_takes listed hbody h

/-- An operand that does not begin with a minus sign, and what is applied to it. -/
theorem operandOf_takes {operand primary : Reader Node} {p : Piece} {ps qs : List Piece}
    {follow : List Piece → Prop} {P Q : Node → Prop} (hp : (op "-").admits p = false)
    (h : Takes primary (p :: ps) anything P)
    (hn : ∀ n, P n → Takes (applied expression n) qs follow Q) :
    Takes (operandOf expression operand primary) (p :: ps ++ qs) follow Q := by
  unfold operandOf
  refine Takes.unseen hp ?_
  exact Takes.bind h hn fun _ _ => trivial

/-- A minus sign before an integer belongs to it, also before a zero. Behind it comes what is
applied to the integer. -/
theorem operandOf_minus {operand primary : Reader Node} {text : String} {n : Nat} (line : Nat)
    (h : Number.Integer.read? text.toList = some n) {qs : List Piece}
    {follow : List Piece → Prop} {Q : Node → Prop}
    (hn : ∀ m, Like (.integer line (-n)) m → Takes (applied expression m) qs follow Q) :
    Takes (operandOf expression operand primary) (.op "-" :: ⟨.integer, text⟩ :: qs) follow Q := by
  unfold operandOf
  refine Takes.seen rfl (Takes.cons (advance_takes _) ?_)
  intro minus _
  refine Takes.seen rfl (Takes.cons (advance_takes _) ?_)
  intro t ht
  rw [text_of_piece ht]
  refine Takes.pass (integerOf_takes h) ?_ fun _ _ => trivial
  rintro m rfl
  exact hn _ rfl

/-- A negative integer, and what is applied to it. -/
theorem operandOf_negative {operand primary : Reader Node} {line : Nat} {n : Int}
    (written : (Number.Integer.text? n).isSome = true) (hneg : n < 0) {qs : List Piece}
    {follow : List Piece → Prop} {Q : Node → Prop}
    (hn : ∀ m, Like (.integer line n) m → Takes (applied expression m) qs follow Q) :
    Takes (operandOf expression operand primary) (integerPieces n ++ qs) follow Q := by
  have hvalue : n = -(n.natAbs : Int) := by omega
  unfold integerPieces
  dsimp only
  rw [if_pos hneg]
  refine operandOf_minus (n := n.natAbs) line ?_ (hvalue ▸ hn)
  rw [String.toList_ofList]
  exact Number.Integer.read?_digits written

/-! ## Operators and assignments -/

/-- The operator that comes next. -/
def operatorAhead (rs : List Piece) : Option Operator :=
  match rs[0]? with
  | none => none
  | some p => if p.kind = .op ∨ p.kind = .keyword then Operator.ofSign? p.text else none

theorem nextOperator_looks : Looks nextOperator operatorAhead := by
  intro ts last
  rw [nextOperator, bind_ok (peek_looks 0 ts last)]
  cases ts <;> rfl

theorem operatorAhead_piece {rs : List Piece} :
    ∀ o ∈ Operator.all, operatorAhead (o.piece :: rs) = some o := by
  simp [Operator.all, operatorAhead, Operator.piece, Operator.ofSign?, Operator.sign]

/-- Neither an application nor an operator comes next. -/
def Rests (rs : List Piece) : Prop := Stops rs ∧ operatorAhead rs = none

theorem Ends.rests {rs : List Piece} (h : Ends rs) : Rests rs := by
  obtain ⟨c, tail, rfl, hopen, hdot⟩ := h
  refine ⟨⟨?_, ?_, rfl⟩, rfl⟩
  · simpa [admits, punct] using Ne.symm hopen
  · simpa [admits, punct] using Ne.symm hdot

theorem stops_operator {rs : List Piece} : ∀ o ∈ Operator.all, Stops (o.piece :: rs) := by
  simp [Operator.all, Operator.piece, Operator.sign, Stops, admits, punct, op]

theorem climb_rests {chain : Nat → Reader Node} {left : Node} {P : Node → Prop} (least : Nat)
    (bound : List Token) (h : P left) : Takes (climb chain least bound left) [] Rests P := by
  unfold climb
  exact Takes.look nextOperator_looks (a := none) (Takes.pure h) fun _ h => h.2

theorem chainOf_rests {chain : Nat → Reader Node} {operand : Reader Node} {ps : List Piece}
    {P : Node → Prop} (h : Takes operand ps Stops P) (least : Nat) :
    Takes (chainOf chain operand least) ps Rests P := by
  unfold chainOf
  rw [← List.append_nil ps]
  refine Takes.bind h ?_ fun _ h => h.1
  intro left hleft
  refine Takes.pending_bind ?_
  intro bound _
  exact climb_rests least bound hleft

/-- Two operands and the operator between them. -/
theorem chainOf_binary {chain : Nat → Reader Node} {operand : Reader Node} {line : Nat}
    {o : Operator} {left right : Node} (known : o ∈ Operator.all)
    (hleft : Takes operand left.spell Stops (Like left))
    (hright : Takes (chain (o.precedence + 1)) right.spell Rests (Like right)) :
    Takes (chainOf chain operand 1) (left.spell ++ o.piece :: right.spell) Rests
      (Like (.binary line o left right)) := by
  unfold chainOf
  refine Takes.bind hleft ?_ fun _ _ => stops_operator o known
  intro l hl
  refine Takes.pending_bind ?_
  intro bound hb
  unfold climb
  refine Takes.look nextOperator_looks (a := some o) ?_ fun _ _ => operatorAhead_piece o known
  dsimp only
  -- a chain of the least precedence takes every operator
  have hbinds : ∀ o ∈ Operator.all, ¬ o.precedence < 1 := by decide
  rw [if_neg (hbinds o known)]
  refine Takes.cons (advance_takes _) ?_
  intro t _
  rw [← List.append_nil right.spell]
  refine Takes.bind hright ?_ fun _ h => h
  intro r hr
  cases bound with
  | nil => simp at hb
  | cons _ bound =>
    refine climb_rests 1 bound ?_
    simp [Like, unlined, hl, hr]

/-- Nothing comes next that an expression could go on with. -/
def Done (rs : List Piece) : Prop := Rests rs ∧ rs[0]?.any (op "=").admits = false

theorem done_nil : Done [] := ⟨⟨⟨rfl, rfl, rfl⟩, rfl⟩, rfl⟩

theorem Ends.done {rs : List Piece} (h : Ends rs) : Done rs := by
  refine ⟨h.rests, ?_⟩
  obtain ⟨c, tail, rfl, _⟩ := h
  rfl

theorem ends_of_done {r : Reader Node} {ps : List Piece} {P : Node → Prop} (h : Takes r ps Done P) :
    Takes r ps Ends P :=
  h.mono (fun _ hr => hr.done) fun _ hP => hP

theorem expressionOf_done {chain : Nat → Reader Node} {ps : List Piece} {P : Node → Prop}
    (h : Takes (chain 1) ps Rests P) : Takes (expressionOf expression chain) ps Done P := by
  unfold expressionOf
  rw [← List.append_nil ps]
  refine Takes.bind h ?_ fun _ h => h.1
  intro left hleft
  exact Takes.look (sees_looks _) (a := false) (Takes.pure hleft) fun _ h => h.2

theorem expressionOf_rests {chain : Nat → Reader Node} {ps : List Piece} {P : Node → Prop}
    (h : Takes (chain 1) ps Rests P) : Takes (expressionOf expression chain) ps Ends P :=
  ends_of_done (expressionOf_done h)

/-- An assignment. -/
theorem expressionOf_assignment {chain : Nat → Reader Node} {line : Nat} {target value : Node}
    (left : target.isTarget = true) (htarget : Takes (chain 1) target.spell Rests (Like target))
    (hvalue : Whole expression value) :
    Takes (expressionOf expression chain) (target.spell ++ .op "=" :: value.spell) Ends
      (Like (.reassignment line target value)) := by
  unfold expressionOf
  refine Takes.bind htarget ?_ fun _ _ => ⟨⟨rfl, rfl, rfl⟩, rfl⟩
  intro n hn
  have hleft : n.isTarget = true := by
    rw [← isTarget_unlined, hn, isTarget_unlined, left]
  refine Takes.seen rfl ?_
  rw [if_pos hleft]
  refine Takes.cons (advance_takes _) ?_
  intro t _
  refine Takes.map hvalue.takes ?_
  intro v hv
  simp [Like, unlined, hn, hv]

/-! ## Instructions and declarations -/

/-- A variable declaration comes next. -/
def variableAhead (rs : List Piece) : Bool :=
  rs[0]?.any (keyword "const").admits || rs[0]?.any (keyword "var").admits

theorem seesVariable_looks : Looks seesVariable variableAhead :=
  or_looks (sees_looks _) (sees_looks _)

theorem variableAhead_variablePiece (isConst : Bool) (rs : List Piece) :
    variableAhead (variablePiece isConst :: rs) = true := by
  cases isConst <;> rfl

theorem instructionOf_expression {node : Node} (h : Whole expression node) :
    TakesLine (instructionOf expression instruction conditional declaration) node := by
  obtain ⟨⟨q, qs, hq, ho⟩, h⟩ := h
  rw [hq] at h
  rw [TakesLine, line, hq]
  -- the piece that an expression begins with is none of those looked for
  refine terminated_takes ?_
  refine Takes.look seesVariable_looks (a := false) ?_ ?_
  · refine Takes.look (and_looks (sees_looks _) (check_looks _ 1)) (a := false) ?_ ?_
    · refine Takes.unseen (admits_eq_false ho rfl) (Takes.unseen (admits_eq_false ho rfl) ?_)
      exact Takes.unseen (admits_eq_false ho rfl) (Takes.unseen (admits_eq_false ho rfl) h)
    · intro rs _
      have hfn : (keyword "fn").admits q = false := admits_eq_false ho rfl
      show ((keyword "fn").admits q && _) = false
      rw [hfn, Bool.false_and]
  · intro rs _
    exact Bool.or_eq_false_iff.mpr ⟨admits_eq_false ho rfl, admits_eq_false ho rfl⟩

theorem instructionOf_destructuring {line : Nat} {names : List String} {isConst : Bool}
    {source : Node} (h : Whole expression source) :
    TakesLine (instructionOf expression instruction conditional declaration)
      (.destructuring line names isConst source) := by
  refine terminated_takes ?_
  refine Takes.look seesVariable_looks (a := true) ?_ fun _ _ => variableAhead_variablePiece _ _
  refine Takes.look (check_looks _ 1) (a := true) ?_ fun _ _ => rfl
  exact destructuring_takes h

theorem instructionOf_variable {line : Nat} {name : String} {isConst : Bool} {value : Node}
    (h : Whole expression value) :
    TakesLine (instructionOf expression instruction conditional declaration)
      (.variableDecl line name isConst value false) := by
  refine terminated_takes ?_
  refine Takes.look seesVariable_looks (a := true) ?_ fun _ _ => variableAhead_variablePiece _ _
  refine Takes.look (check_looks _ 1) (a := false) ?_ fun _ _ => rfl
  exact variableDecl_takes h

theorem instructionOf_function {line : Nat} {name : String} {ps : List Param} {body : List Node}
    {result : Node} (listed : Param.Listed ps)
    (hbody : ∀ i ∈ body, Line instruction i) (h : Whole expression result) :
    TakesLine (instructionOf expression instruction conditional declaration)
      (.functionDecl line name ps body result false) := by
  refine terminated_takes ?_
  refine Takes.look seesVariable_looks (a := false) ?_ fun _ _ => rfl
  refine Takes.look (and_looks (sees_looks _) (check_looks _ 1)) (a := true) ?_ fun _ _ => rfl
  exact (functionDecl_takes listed hbody h).of_anything

theorem instructionOf_module {line : Nat} {name : String} {body : List Node}
    (h : ∀ d ∈ body, Line (terminated declaration) d) :
    TakesLine (instructionOf expression instruction conditional declaration)
      (.moduleDecl line name body false) := by
  refine terminated_takes ?_
  refine Takes.look seesVariable_looks (a := false) ?_ fun _ _ => rfl
  refine Takes.look (and_looks (sees_looks _) (check_looks _ 1)) (a := false) ?_ fun _ _ => rfl
  refine Takes.seen rfl ?_
  exact (moduleDecl_takes h).of_anything

theorem instructionOf_conditional {line : Nat} {condition : Node} {body : List Node}
    {elseBody : Option (List Node)}
    (h : Takes conditional (Node.conditional line condition body elseBody).spell Ends
      (Like (.conditional line condition body elseBody))) :
    TakesLine (instructionOf expression instruction conditional declaration)
      (.conditional line condition body elseBody) := by
  refine terminated_takes ?_
  refine Takes.look seesVariable_looks (a := false) ?_ fun _ _ => rfl
  refine Takes.look (and_looks (sees_looks _) (check_looks _ 1)) (a := false) ?_ fun _ _ => rfl
  exact Takes.unseen rfl (Takes.seen rfl h)

/-- The keyword of an exported declaration, and the declaration itself. -/
theorem skips_export {isExported : Bool} {next : Bool → Reader Node} {q : Piece} {qs : List Piece}
    {P : Node → Prop} (hq : (keyword "export").admits q = false)
    (h : Takes (next isExported) (q :: qs) Ends P) :
    Takes (skips (keyword "export") >>= next) (exportPieces isExported ++ q :: qs) Ends P := by
  cases isExported with
  | true =>
    refine Takes.cons (skips_takes rfl) ?_
    rintro b rfl
    exact h
  | false =>
    refine Takes.pass (skips_passes _) ?_ fun _ _ => hq
    rintro b rfl
    exact h

theorem declarationOf_function {line : Nat} {name : String} {ps : List Param} {body : List Node}
    {result : Node} {isExported : Bool} (listed : Param.Listed ps)
    (hbody : ∀ i ∈ body, Line instruction i) (h : Whole expression result) :
    TakesLine (terminated (declarationOf expression instruction declaration))
      (.functionDecl line name ps body result isExported) := by
  refine terminated_takes (skips_export rfl (Takes.seen rfl ?_))
  exact (functionDecl_takes listed hbody h).of_anything

theorem declarationOf_variable {line : Nat} {name : String} {isConst isExported : Bool}
    {value : Node} (h : Whole expression value) :
    TakesLine (terminated (declarationOf expression instruction declaration))
      (.variableDecl line name isConst value isExported) := by
  refine terminated_takes (skips_export ?_ (Takes.unseen ?_ ?_))
  · cases isConst <;> rfl
  · cases isConst <;> rfl
  · refine Takes.look seesVariable_looks (a := true) ?_ fun _ _ => variableAhead_variablePiece _ _
    refine Takes.look (check_looks _ 1) (a := false) ?_ fun _ _ => rfl
    exact variableDecl_takes h

theorem declarationOf_module {line : Nat} {name : String} {body : List Node} {isExported : Bool}
    (h : ∀ d ∈ body, Line (terminated declaration) d) :
    TakesLine (terminated (declarationOf expression instruction declaration))
      (.moduleDecl line name body isExported) := by
  refine terminated_takes (skips_export rfl (Takes.unseen rfl ?_))
  refine Takes.look seesVariable_looks (a := false) ?_ fun _ _ => rfl
  exact Takes.seen rfl (moduleDecl_takes h).of_anything

end Scriptlet.Grammar
