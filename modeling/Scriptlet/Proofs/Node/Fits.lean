import Scriptlet.Node
import Scriptlet.Token.Scan

/-!
# Trees that fit the grammar

A tree built by hand may hold any node anywhere. `Node.Fits` singles out those that a program text
can stand for: which nodes may stand in which place, and what names, parameters, operators and
literals may occur in them.

* `Role` : the three places that a node can take.
* `Node.Fits` : the node may take a place. Whether literals of floats may occur is left open, since
  not everything that holds of the other literals holds of them.
* `Node.parts` : the expressions that an expression evaluates itself, in its own scope.
-/

namespace Scriptlet

/-- Has a text the shape of a name or keyword? -/
def Token.isWord (text : String) : Bool :=
  match text.toList with
  | [] => false
  | c :: rest => Lexeme.isNameStart c && rest.all Lexeme.isNamePart

/-- Is a text a name? -/
def Token.isName (text : String) : Bool := Token.isWord text && !Token.keywords.contains text

theorem Token.isWord_of_isName {text : String} (h : Token.isName text = true) :
    Token.isWord text = true := by
  unfold Token.isName at h
  exact (Bool.and_eq_true_iff.mp h).1

/-- The parameters that a function may have. -/
structure Param.Listed (params : List Param) : Prop where
  named : ∀ p ∈ params, Token.isName p.name = true
  distinct : (params.map (·.name)).Nodup
  /-- Only the last one may be a rest parameter. -/
  single : ∀ p ∈ params.dropLast, p.isRest = false

/-- The places that a node can take. -/
inductive Role where
  | expression
  /-- A direct instruction of a function body or block. -/
  | instruction
  /-- A declaration of a module. -/
  | declaration
  deriving DecidableEq, Repr

namespace Node

/-- Is the node a declaration that is exported? -/
def isExported : Node → Bool
  | functionDecl _ _ _ _ _ isExported | moduleDecl _ _ _ isExported
  | variableDecl _ _ _ _ isExported => isExported
  | _ => false

/-- The node may take a place in a program; `floats` says whether literals of floats may occur. -/
inductive Fits (floats : Prop) : Role → Node → Prop where
  | functionExpr {line : Nat} {params : List Param} {body : List Node} {result : Node}
      {name : String} (named : Token.isName name = true) (listed : Param.Listed params)
      (hbody : ∀ i ∈ body, Fits floats .instruction i) (hresult : Fits floats .expression result) :
      Fits floats .expression (.functionExpr line params body result name)
  | reassignment {line : Nat} {target value : Node} (left : target.isTarget = true)
      (htarget : Fits floats .expression target) (hvalue : Fits floats .expression value) :
      Fits floats .expression (.reassignment line target value)
  | moduleAccess {line : Nat} {module : Node} {member : String} (path : module.isPath = true)
      (hmodule : Fits floats .expression module) (named : Token.isName member = true) :
      Fits floats .expression (.moduleAccess line module member)
  | objectAccess {line : Nat} {target : Node} {member : String}
      (htarget : Fits floats .expression target) (word : Token.isWord member = true) :
      Fits floats .expression (.objectAccess line target member)
  | binary {line : Nat} {o : Operator} {left right : Node} (known : o ∈ Operator.all)
      (hleft : Fits floats .expression left) (hright : Fits floats .expression right) :
      Fits floats .expression (.binary line o left right)
  | call {line : Nat} {callee : Node} {args : List Node} (hcallee : Fits floats .expression callee)
      (hargs : ∀ a ∈ args, Fits floats .expression a) :
      Fits floats .expression (.call line callee args)
  | identifier {line : Nat} {symbol : String} (named : Token.isName symbol = true) :
      Fits floats .expression (.identifier line symbol)
  | object {line : Nat} {pairs : List (String × Node)}
      (hpairs : ∀ pair ∈ pairs, Fits floats .expression pair.2) :
      Fits floats .expression (.object line pairs)
  | array {line : Nat} {elements : List Node}
      (helements : ∀ e ∈ elements, Fits floats .expression e) :
      Fits floats .expression (.array line elements)
  | string {line : Nat} {text : String} : Fits floats .expression (.string line text)
  | integer {line : Nat} {n : Int} (written : (Number.Integer.text? n).isSome = true) :
      Fits floats .expression (.integer line n)
  | float {line : Nat} {x : Number.Double} (allowed : floats) :
      Fits floats .expression (.float line x)
  | char {line : Nat} {c : Char} : Fits floats .expression (.char line (String.ofList [c]))
  | bool {line : Nat} {b : Bool} : Fits floats .expression (.bool line b)
  | undefined {line : Nat} : Fits floats .expression (.undefined line)
  | functionDecl {line : Nat} {name : String} {params : List Param} {body : List Node}
      {result : Node} {isExported : Bool} (named : Token.isName name = true)
      (listed : Param.Listed params) (hbody : ∀ i ∈ body, Fits floats .instruction i)
      (hresult : Fits floats .expression result) :
      Fits floats .declaration (.functionDecl line name params body result isExported)
  | moduleDecl {line : Nat} {name : String} {body : List Node} {isExported : Bool}
      (named : Token.isName name = true) (hbody : ∀ d ∈ body, Fits floats .declaration d) :
      Fits floats .declaration (.moduleDecl line name body isExported)
  | variableDecl {line : Nat} {name : String} {isConst : Bool} {value : Node} {isExported : Bool}
      (named : Token.isName name = true) (hvalue : Fits floats .expression value) :
      Fits floats .declaration (.variableDecl line name isConst value isExported)
  | evaluated {node : Node} (h : Fits floats .expression node) : Fits floats .instruction node
  | declared {node : Node} (h : Fits floats .declaration node) (own : node.isExported = false) :
      Fits floats .instruction node
  | destructuring {line : Nat} {names : List String} {isConst : Bool} {source : Node}
      (named : ∀ name ∈ names, Token.isName name = true)
      (hsource : Fits floats .expression source) :
      Fits floats .instruction (.destructuring line names isConst source)
  | conditional {line : Nat} {condition : Node} {body : List Node}
      {elseBody : Option (List Node)} (hcondition : Fits floats .expression condition)
      (hbody : ∀ i ∈ body, Fits floats .instruction i)
      (helseBody : ∀ branch ∈ elseBody, ∀ i ∈ branch, Fits floats .instruction i) :
      Fits floats .instruction (.conditional line condition body elseBody)

variable {floats : Prop}

/-! ## Places and families -/

theorem Fits.family_expression {node : Node} (h : Fits floats .expression node) :
    node.family = .expression := by
  cases h <;> rfl

theorem Fits.family_declaration {node : Node} (h : Fits floats .declaration node) :
    node.family = .declaration := by
  cases h <;> rfl

/-- An instruction of the family of expressions is an expression, or it takes an object apart. -/
theorem Fits.expression_or_destructuring {node : Node} (h : Fits floats .instruction node)
    (hf : node.family = .expression) :
    Fits floats .expression node ∨ ∃ line names isConst source,
      node = .destructuring line names isConst source ∧ Fits floats .expression source := by
  cases h with
  | evaluated h => exact Or.inl h
  | declared h own =>
    rw [h.family_declaration] at hf
    cases hf
  | destructuring named source => exact Or.inr ⟨_, _, _, _, rfl, source⟩
  | conditional condition body elseBody => cases hf

/-- An instruction of the family of declarations is a declaration. -/
theorem Fits.declaration_of_family {node : Node} (h : Fits floats .instruction node)
    (hf : node.family = .declaration) : Fits floats .declaration node := by
  cases h with
  | evaluated h =>
    rw [h.family_expression] at hf
    cases hf
  | declared h own => exact h
  | destructuring named source => cases hf
  | conditional condition body elseBody => cases hf

/-- No instruction lies outside the families. -/
theorem Fits.family_ne_stray {node : Node} (h : Fits floats .instruction node) :
    node.family ≠ .stray := by
  cases h with
  | evaluated h => simp [h.family_expression]
  | declared h own => simp [h.family_declaration]
  | destructuring named source => simp [family]
  | conditional condition body elseBody => simp [family]

/-! ## The parts of an expression -/

/-- The expressions that an expression evaluates itself, in its own scope. -/
def parts : Node → List Node
  | reassignment _ (objectAccess _ owner _) value => [owner, value]
  | reassignment _ _ value => [value]
  | destructuring _ _ _ source => [source]
  | objectAccess _ target _ => [target]
  | binary _ _ left right => [left, right]
  | call _ callee args => callee :: args
  | object _ pairs => pairs.map (·.2)
  | array _ elements => elements
  | _ => []

/-- The parts of an expression are expressions. -/
theorem Fits.parts {node : Node} (h : Fits floats .expression node) :
    ∀ p ∈ node.parts, Fits floats .expression p := by
  intro p hp
  cases h with
  | reassignment left target value =>
    cases target with
    | objectAccess owner word =>
      simp only [Node.parts, List.mem_cons, List.not_mem_nil, or_false] at hp
      rcases hp with rfl | rfl
      · exact owner
      · exact value
    | identifier named =>
      simp only [Node.parts, List.mem_singleton] at hp
      exact hp ▸ value
    | _ => cases left
  | objectAccess target word =>
    simp only [Node.parts, List.mem_singleton] at hp
    exact hp ▸ target
  | binary known left right =>
    simp only [Node.parts, List.mem_cons, List.not_mem_nil, or_false] at hp
    rcases hp with rfl | rfl
    · exact left
    · exact right
  | call callee args =>
    rcases List.mem_cons.mp hp with rfl | hp
    · exact callee
    · exact args p hp
  | object pairs =>
    obtain ⟨pair, hm, rfl⟩ := List.mem_map.mp hp
    exact pairs pair hm
  | array elements => exact elements p hp
  | _ => simp [Node.parts] at hp

/-- So are those of an instruction that is evaluated. -/
theorem Fits.parts_of_instruction {node : Node} (h : Fits floats .instruction node)
    (hf : node.family = .expression) : ∀ p ∈ node.parts, Fits floats .expression p := by
  rcases h.expression_or_destructuring hf with he | ⟨_, _, _, source, rfl, hs⟩
  · exact he.parts
  · intro p hp
    simp only [Node.parts, List.mem_singleton] at hp
    exact hp ▸ hs

/-! ## Without lines -/

@[simp] theorem isTarget_unlined (node : Node) : node.unlined.isTarget = node.isTarget := by
  cases node <;> simp [unlined, isTarget]

@[simp] theorem isPath_unlined (node : Node) : node.unlined.isPath = node.isPath := by
  cases node <;> simp [unlined, isPath]

@[simp] theorem isExported_unlined (node : Node) : node.unlined.isExported = node.isExported := by
  cases node <;> simp [unlined, isExported]

theorem unlinedElse_eq_map (branch : Option (List Node)) :
    unlinedElse branch = branch.map (List.map unlined) := by
  cases branch <;> simp [unlinedElse]

/-- Dropping the lines keeps a node in its place. -/
theorem Fits.unlined {role : Role} {node : Node} (h : Fits floats role node) :
    Fits floats role node.unlined := by
  -- a list of nodes fits when each of them does, so a `map` is opened in the same way everywhere
  have all : ∀ {r : Role} {nodes : List Node}, (∀ i ∈ nodes, Fits floats r i.unlined) →
      ∀ i ∈ nodes.map Node.unlined, Fits floats r i := by
    intro r nodes hn i hi
    obtain ⟨j, hj, rfl⟩ := List.mem_map.mp hi
    exact hn j hj
  induction h with
  | functionExpr named listed _ _ body result =>
    rw [Node.unlined, unlinedAll_eq_map]
    exact .functionExpr named listed (all body) result
  | reassignment left _ _ target value =>
    rw [Node.unlined]
    exact .reassignment (by simpa using left) target value
  | moduleAccess path _ named module =>
    rw [Node.unlined]
    exact .moduleAccess (by simpa using path) module named
  | objectAccess _ word target =>
    rw [Node.unlined]
    exact .objectAccess target word
  | binary known _ _ left right =>
    rw [Node.unlined]
    exact .binary known left right
  | call _ _ callee args =>
    rw [Node.unlined, unlinedAll_eq_map]
    exact .call callee (all args)
  | identifier named => exact .identifier named
  | object _ pairs =>
    rw [Node.unlined, unlinedPairs_eq_map]
    refine .object ?_
    intro pair hp
    obtain ⟨q, hq, rfl⟩ := List.mem_map.mp hp
    exact pairs q hq
  | array _ elements =>
    rw [Node.unlined, unlinedAll_eq_map]
    exact .array (all elements)
  | string => exact .string
  | integer written => exact .integer written
  | float allowed => exact .float allowed
  | char => exact .char
  | bool => exact .bool
  | undefined => exact .undefined
  | functionDecl named listed _ _ body result =>
    rw [Node.unlined, unlinedAll_eq_map]
    exact .functionDecl named listed (all body) result
  | moduleDecl named _ body =>
    rw [Node.unlined, unlinedAll_eq_map]
    exact .moduleDecl named (all body)
  | variableDecl named _ value =>
    rw [Node.unlined]
    exact .variableDecl named value
  | evaluated _ h => exact .evaluated h
  | declared _ own h => exact .declared h (by simpa using own)
  | destructuring named _ source =>
    rw [Node.unlined]
    exact .destructuring named source
  | conditional _ _ _ condition body elseBody =>
    rw [Node.unlined, unlinedAll_eq_map, unlinedElse_eq_map]
    refine .conditional condition (all body) ?_
    intro branch hb
    obtain ⟨b, hb', rfl⟩ := Option.map_eq_some_iff.mp hb
    exact all (elseBody b hb')

end Node

end Scriptlet
