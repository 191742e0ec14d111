import Scriptlet.Proofs.Node.Fits
import Scriptlet.Proofs.Token.Spell

/-!
# How trees are written

`Node.spell` writes a tree as a list of pieces and `Node.print` a list of declarations as a text.
Nothing is left to how tightly operators bind: every expression that has parts stands in
parentheses, wherever it occurs. Functions and blocks have braces, every instruction and declaration
is ended by a semicolon, and keys of objects are written as strings.

A tree that fits is written with proper pieces (`Node.Fits.proper`), and its first piece already
tells an expression from any other instruction (`Node.opens_spell`). Floats and constructs without
meaning have no spelling.
-/

namespace Scriptlet

open Piece

/-! ## Parts of trees -/

/-- A name or keyword. -/
def Piece.word (text : String) : Piece :=
  ⟨if Token.keywords.contains text then .keyword else .name, text⟩

theorem Piece.kind_word (text : String) :
    (word text).kind = .name ∨ (word text).kind = .keyword := by
  unfold word
  split
  · exact Or.inr rfl
  · exact Or.inl rfl

/-- The sign of an operator. -/
def Operator.piece (o : Operator) : Piece :=
  ⟨if o = .instanceOf ∨ o = .isIn then .keyword else .op, o.sign⟩

/-- A parameter with the dots of a rest parameter. -/
def Param.spell (p : Param) : List Piece :=
  if p.isRest then [op "...", Piece.name p.name] else [Piece.name p.name]

namespace Node

/-- In parentheses. -/
def enclosed (inside : List Piece) : List Piece := punct "(" :: (inside ++ [punct ")"])

/-- An integer; a minus sign is a piece of its own. -/
def integerPieces (n : Int) : List Piece :=
  let digits : Piece := ⟨.integer, String.ofList (Number.Integer.digits n.natAbs)⟩
  if n < 0 then [op "-", digits] else [digits]

/-- Items with commas between them, and what stands behind them. -/
def commas {ι : Type} (spell : ι → List Piece) (close : Piece) (items : List ι) : List Piece :=
  joined (fun x rest => spell x ++ comma rest) [close] items

/-- Items that were made from others. -/
theorem commas_map {ι κ : Type} (spell : κ → List Piece) (close : Piece) (f : ι → κ)
    (items : List ι) :
    commas spell close (items.map f) = commas (fun x => spell (f x)) close items := by
  induction items with
  | nil => rfl
  | cons x items ih =>
    rw [commas, commas] at ih
    rw [List.map_cons, commas, commas, joined, joined, ih]
    cases items <;> rfl

/-- A function, given the pieces of its body. -/
def functionPieces (name : String) (params : List Param) (body : List Piece) : List Piece :=
  keyword "fn" :: .name name :: punct "(" ::
    (commas Param.spell (punct ")") params ++ punct "\x7b" :: body)

/-- A return statement and the end of the body. -/
def returnPieces (value : List Piece) : List Piece :=
  (keyword "return" :: (value ++ [punct ";"])) ++ [punct "\x7d"]

/-- The keyword of a variable declaration. -/
def variablePiece (isConst : Bool) : Piece := keyword (if isConst then "const" else "var")

/-- The keyword of an exported declaration. -/
def exportPieces (isExported : Bool) : List Piece :=
  if isExported then [keyword "export"] else []

/-! ## Trees -/

mutual

/-- A node as a list of pieces. -/
def spell : Node → List Piece
  | functionExpr _ params body result name =>
    enclosed (functionPieces name params (spellLines (returnPieces result.spell) body))
  | reassignment _ target value => enclosed (target.spell ++ op "=" :: value.spell)
  | moduleAccess _ module member => enclosed (module.spell ++ [op "::", .name member])
  | destructuring _ names isConst source =>
    variablePiece isConst :: punct "\x7b" ::
      (commas (fun x => [.name x]) (punct "\x7d") names ++ op "=" :: source.spell)
  | objectAccess _ target member => enclosed (target.spell ++ [punct ".", word member])
  | binary _ operator left right => enclosed (left.spell ++ operator.piece :: right.spell)
  | call _ callee args => enclosed (callee.spell ++ punct "(" :: spellAll (punct ")") args)
  | identifier _ symbol => [.name symbol]
  | object _ pairs => enclosed (punct "\x7b" :: spellPairs pairs)
  | array _ elements => enclosed (punct "[" :: spellAll (punct "]") elements)
  | string _ value => [⟨.string, value⟩]
  | integer _ value => integerPieces value
  | float .. => []
  | char _ value => [⟨.char, value⟩]
  | bool _ value => [keyword (if value then "true" else "false")]
  | undefined _ => [keyword "undefined"]
  | functionDecl _ name params body result isExported =>
    exportPieces isExported ++
      functionPieces name params (spellLines (returnPieces result.spell) body)
  | moduleDecl _ name body isExported =>
    exportPieces isExported ++
      keyword "module" :: .name name :: punct "\x7b" :: spellLines [punct "\x7d"] body
  | variableDecl _ name isConst value isExported =>
    exportPieces isExported ++ variablePiece isConst :: .name name :: op "=" :: value.spell
  | conditional _ condition body elseBody =>
    keyword "if" ::
      (condition.spell ++ punct "\x7b" ::
        (spellLines [punct "\x7d"] body ++ spellElse elseBody))
  | unknown .. => []

/-- Expressions with commas between them, and what stands behind them. -/
def spellAll (close : Piece) : List Node → List Piece
  | [] => [close]
  | node :: rest => (node.spell ++ comma rest) ++ spellAll close rest

/-- The pairs of an object literal and its closing brace. -/
def spellPairs : List (String × Node) → List Piece
  | [] => [punct "\x7d"]
  | (key, node) :: rest =>
    (⟨.string, key⟩ :: punct ":" :: node.spell ++ comma rest) ++ spellPairs rest

/-- Instructions or declarations, each with a semicolon, and what stands behind them. -/
def spellLines (tail : List Piece) : List Node → List Piece
  | [] => tail
  | node :: rest => (node.spell ++ [punct ";"]) ++ spellLines tail rest

/-- The alternative of a conditional. -/
def spellElse : Option (List Node) → List Piece
  | none => []
  | some body => keyword "else" :: punct "\x7b" :: spellLines [punct "\x7d"] body

end

/-- Declarations as a text. -/
def print (nodes : List Node) : String := String.ofList (render (spellLines [] nodes))

/-- An instruction or declaration with its semicolon. -/
def line (node : Node) : List Piece := node.spell ++ [punct ";"]

/-- A key of an object literal and its value. -/
def pairPieces (pair : String × Node) : List Piece := ⟨.string, pair.1⟩ :: punct ":" :: pair.2.spell

theorem spellAll_eq (close : Piece) (nodes : List Node) :
    spellAll close nodes = commas spell close nodes := by
  induction nodes with
  | nil => rfl
  | cons node rest ih => rw [spellAll, ih, commas, commas, joined]

theorem spellPairs_eq (pairs : List (String × Node)) :
    spellPairs pairs = commas pairPieces (punct "\x7d") pairs := by
  induction pairs with
  | nil => rfl
  | cons pair rest ih =>
    rw [spellPairs, ih, commas, commas, joined]
    rfl

theorem spellLines_eq (tail : List Piece) (nodes : List Node) :
    spellLines tail nodes = joined (fun node _ => node.line) tail nodes := by
  induction nodes with
  | nil => rfl
  | cons node rest ih => rw [spellLines, ih, joined, line]

/-! ## Proper pieces -/

/-- The pieces with a text of their own. -/
def fixed : List Piece :=
  [punct "(", punct ")", punct "[", punct "]", punct "\x7b", punct "\x7d", punct ",", punct ";",
    punct ":", punct ".", op "...", op "=", op "::", op "-", keyword "fn", keyword "return",
    keyword "const", keyword "var", keyword "export", keyword "module", keyword "if",
    keyword "else", keyword "true", keyword "false", keyword "undefined"]

theorem proper_of_mem_fixed : ∀ p ∈ fixed, p.Proper := by
  simp [fixed, Proper, Lexeme.punctuation, Lexeme.operators, Token.keywords]

theorem proper_word {text : String} (h : Token.isWord text = true) : (word text).Proper := by
  unfold word
  by_cases hk : Token.keywords.contains text
  · rw [if_pos hk]
    exact List.contains_iff_mem.mp hk
  · rw [if_neg hk]
    show Token.isName text = true
    rw [Token.isName, h, Bool.true_and, Bool.not_eq_true']
    exact Bool.not_eq_true _ ▸ hk

theorem proper_operator : ∀ o ∈ Operator.all, o.piece.Proper := by
  simp [Operator.all, Operator.piece, Operator.sign, Proper, Lexeme.operators, Token.keywords]

/-- All pieces are proper. -/
def AllProper (ps : List Piece) : Prop := ∀ p ∈ ps, p.Proper

namespace AllProper

variable {ι : Type} {p : Piece} {ps qs : List Piece} {xs : List ι}

theorem nil : AllProper [] := fun _ hp => nomatch hp

theorem cons (hp : p.Proper) (h : AllProper ps) : AllProper (p :: ps) :=
  List.forall_mem_cons.mpr ⟨hp, h⟩

theorem fixed (hp : p ∈ fixed) (h : AllProper ps) : AllProper (p :: ps) :=
  cons (proper_of_mem_fixed p hp) h

theorem append (h : AllProper ps) (hq : AllProper qs) : AllProper (ps ++ qs) :=
  List.forall_mem_append.mpr ⟨h, hq⟩

theorem enclosed (h : AllProper ps) : AllProper (enclosed ps) :=
  .fixed (by decide) (.append h (.fixed (by decide) .nil))

theorem joined {own : ι → List ι → List Piece} (h : ∀ x ∈ xs, ∀ rest, AllProper (own x rest))
    (htail : AllProper ps) : AllProper (joined own ps xs) := by
  induction xs with
  | nil => exact htail
  | cons x xs ih =>
    exact .append (h x List.mem_cons_self xs) (ih fun y hy => h y (List.mem_cons_of_mem x hy))

theorem commas {spell : ι → List Piece} (h : ∀ x ∈ xs, AllProper (spell x)) (hp : p ∈ Node.fixed) :
    AllProper (commas spell p xs) := by
  refine joined ?_ (.fixed hp .nil)
  intro x hx rest
  refine .append (h x hx) ?_
  cases rest with
  | nil => exact .nil
  | cons y rest => exact .fixed (by decide) .nil

theorem integerPieces (n : Int) : AllProper (integerPieces n) := by
  have digits : Piece.Proper ⟨.integer, String.ofList (Number.Integer.digits n.natAbs)⟩ := by
    show (String.ofList _).toList ≠ [] ∧ ∀ c ∈ (String.ofList _).toList, c.isDigit = true
    rw [String.toList_ofList]
    exact ⟨Nat.toDigits_ne_nil, fun c hc => Number.Integer.isDigit_of_mem_digits hc⟩
  unfold Node.integerPieces
  dsimp only
  split
  · exact .fixed (by decide) (.cons digits .nil)
  · exact .cons digits .nil

theorem functionPieces {name : String} {params : List Param} {body : List Piece}
    (named : Token.isName name = true) (listed : Param.Listed params) (h : AllProper body) :
    AllProper (functionPieces name params body) := by
  have hparam : ∀ q ∈ params, AllProper q.spell := by
    intro q hq
    have hn : (Piece.name q.name).Proper := listed.named q hq
    unfold Param.spell
    split
    · exact .fixed (by decide) (.cons hn .nil)
    · exact .cons hn .nil
  refine .fixed (by decide) (.cons named (.fixed (by decide) ?_))
  exact .append (.commas hparam (by decide)) (.fixed (by decide) h)

theorem returnPieces (h : AllProper ps) : AllProper (returnPieces ps) :=
  .append (.fixed (by decide) (.append h (.fixed (by decide) .nil))) (.fixed (by decide) .nil)

theorem variablePiece (isConst : Bool) (h : AllProper ps) :
    AllProper (variablePiece isConst :: ps) := by
  cases isConst
  · exact .fixed (by decide) h
  · exact .fixed (by decide) h

theorem exportPieces (isExported : Bool) (h : AllProper ps) :
    AllProper (exportPieces isExported ++ ps) := by
  cases isExported
  · exact h
  · exact .fixed (by decide) h

theorem spellLines {nodes : List Node} (h : ∀ n ∈ nodes, AllProper n.spell)
    (htail : AllProper ps) : AllProper (spellLines ps nodes) := by
  rw [spellLines_eq]
  exact .joined (fun n hn _ => .append (h n hn) (.fixed (by decide) .nil)) htail

end AllProper

/-- A tree that fits and has no floats is written with proper pieces. -/
theorem Fits.proper {role : Role} {node : Node} (h : Fits False role node) :
    AllProper node.spell := by
  induction h with
  | functionExpr named listed _ _ body result =>
    exact .enclosed (.functionPieces named listed (.spellLines body (.returnPieces result)))
  | reassignment _ _ _ target value =>
    exact .enclosed (.append target (.fixed (by decide) value))
  | moduleAccess _ _ named module =>
    exact .enclosed (.append module (.fixed (by decide) (.cons named .nil)))
  | objectAccess _ word target =>
    exact .enclosed (.append target (.fixed (by decide) (.cons (proper_word word) .nil)))
  | binary known _ _ left right =>
    exact .enclosed (.append left (.cons (proper_operator _ known) right))
  | call _ _ callee args =>
    rw [spell, spellAll_eq]
    exact .enclosed (.append callee (.fixed (by decide) (.commas args (by decide))))
  | identifier named => exact .cons named .nil
  | object _ pairs =>
    rw [spell, spellPairs_eq]
    refine .enclosed (.fixed (by decide) (.commas ?_ (by decide)))
    intro pair hp
    exact .cons trivial (.fixed (by decide) (pairs pair hp))
  | array _ elements =>
    rw [spell, spellAll_eq]
    exact .enclosed (.fixed (by decide) (.commas elements (by decide)))
  | string => exact .cons trivial .nil
  | integer _ => exact .integerPieces _
  | float allowed => exact allowed.elim
  | char => exact .cons ⟨_, rfl⟩ .nil
  | @bool _ b =>
    cases b
    · exact .fixed (by decide) .nil
    · exact .fixed (by decide) .nil
  | undefined => exact .fixed (by decide) .nil
  | functionDecl named listed _ _ body result =>
    exact .exportPieces _ (.functionPieces named listed (.spellLines body (.returnPieces result)))
  | moduleDecl named _ body =>
    refine .exportPieces _ (.fixed (by decide) (.cons named (.fixed (by decide) ?_)))
    exact .spellLines body (.fixed (by decide) .nil)
  | variableDecl named _ value =>
    exact .exportPieces _ (.variablePiece _ (.cons named (.fixed (by decide) value)))
  | evaluated _ h => exact h
  | declared _ _ h => exact h
  | destructuring named _ source =>
    refine .variablePiece _ (.fixed (by decide) (.append ?_ (.fixed (by decide) source)))
    exact .commas (fun x hx => .cons (named x hx) .nil) (by decide)
  | @conditional _ _ _ elseBody _ _ _ condition body hbranch =>
    refine .fixed (by decide) (.append condition (.fixed (by decide) (.append ?_ ?_)))
    · exact .spellLines body (.fixed (by decide) .nil)
    · cases elseBody with
      | none => exact .nil
      | some branch =>
        refine .fixed (by decide) (.fixed (by decide) ?_)
        exact .spellLines (hbranch branch rfl) (.fixed (by decide) .nil)

/-! ## First pieces -/

/-- Can an expression begin with the piece? -/
def opens (p : Piece) : Bool :=
  match p.kind with
  | .name | .integer | .string | .char => true
  | .keyword => p.text == "true" || p.text == "false" || p.text == "undefined"
  | .punct => p.text == "("
  | .op => p.text == "-"
  | .float => false

/-- Can an expression, instruction or declaration begin with the piece? -/
def begins (p : Piece) : Bool :=
  opens p || [keyword "fn", keyword "const", keyword "var", keyword "export", keyword "module",
    keyword "if"].contains p

theorem opens_spell {node : Node} (h : Fits False .expression node) :
    ∃ p ps, node.spell = p :: ps ∧ opens p = true := by
  cases h with
  | @integer _ n =>
    rw [spell]
    unfold integerPieces
    dsimp only
    split
    · exact ⟨_, _, rfl, rfl⟩
    · exact ⟨_, _, rfl, rfl⟩
  | @bool _ b =>
    cases b
    · exact ⟨_, _, rfl, rfl⟩
    · exact ⟨_, _, rfl, rfl⟩
  | float allowed => exact allowed.elim
  | _ => exact ⟨_, _, rfl, rfl⟩

theorem begins_spell {role : Role} {node : Node} (h : Fits False role node) :
    ∃ p ps, node.spell = p :: ps ∧ begins p = true := by
  have expression : ∀ {n : Node}, Fits False .expression n →
      ∃ p ps, n.spell = p :: ps ∧ begins p = true := by
    intro n hn
    obtain ⟨p, ps, hp, ho⟩ := opens_spell hn
    exact ⟨p, ps, hp, by rw [begins, ho, Bool.true_or]⟩
  have declaration : ∀ {n : Node}, Fits False .declaration n →
      ∃ p ps, n.spell = p :: ps ∧ begins p = true := by
    intro n hn
    cases hn with
    | @functionDecl _ _ _ _ _ isExported =>
      cases isExported
      · exact ⟨_, _, rfl, rfl⟩
      · exact ⟨_, _, rfl, rfl⟩
    | @moduleDecl _ _ _ isExported =>
      cases isExported
      · exact ⟨_, _, rfl, rfl⟩
      · exact ⟨_, _, rfl, rfl⟩
    | @variableDecl _ _ isConst _ isExported =>
      cases isExported
      · cases isConst
        · exact ⟨_, _, rfl, rfl⟩
        · exact ⟨_, _, rfl, rfl⟩
      · exact ⟨_, _, rfl, rfl⟩
  cases role with
  | expression => exact expression h
  | declaration => exact declaration h
  | instruction =>
    cases h with
    | evaluated h => exact expression h
    | declared h _ => exact declaration h
    | @destructuring _ _ isConst _ _ _ =>
      cases isConst
      · exact ⟨_, _, rfl, rfl⟩
      · exact ⟨_, _, rfl, rfl⟩
    | conditional => exact ⟨_, _, rfl, rfl⟩

end Node

end Scriptlet
