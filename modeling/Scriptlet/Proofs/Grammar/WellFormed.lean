import Mathlib
import Scriptlet.Proofs.Grammar.Fits

/-!
# Trees are well-formed throughout

A tree that is read from a text fits the grammar (`program_fits`). That is said once, of a whole
tree; here it is said of each node that occurs in it, at any depth: what its names, parameters,
operators and literals are like, what it is put together from, and where it may stand.

* `Node.children` : the nodes directly inside a node, each with its place.
* `Node.Occurs` : a node stands somewhere in a declaration, in some place.
* `Node.WellFormed` : what is asked of a node in its place.
* `program_wellFormed` : every node of every declaration that is read is well-formed.
-/

namespace Scriptlet

namespace Node

/-! ## The nodes of a tree -/

/-- The nodes directly inside a node, each with the place that it has there: instructions are those
of the body of a function and of the branches of a conditional, declarations those of a module. -/
def children : Node → List (Role × Node)
  | functionExpr _ _ body result _ | functionDecl _ _ _ body result _ =>
    (.expression, result) :: body.map (.instruction, ·)
  | conditional _ condition body elseBody =>
    (.expression, condition) :: (body ++ elseBody.getD []).map (.instruction, ·)
  | moduleDecl _ _ body _ => body.map (.declaration, ·)
  | reassignment _ left right | binary _ _ left right => [(.expression, left), (.expression, right)]
  | moduleAccess _ inner _ | objectAccess _ inner _ | destructuring _ _ _ inner
  | variableDecl _ _ _ inner _ => [(.expression, inner)]
  | call _ callee args => (callee :: args).map (.expression, ·)
  | object _ pairs => pairs.map fun pair => (.expression, pair.2)
  | array _ elements => elements.map (.expression, ·)
  | identifier .. | string .. | integer .. | float .. | char .. | bool .. | undefined ..
  | unknown .. => []

/-- A node stands somewhere in a declaration, at the top or further inside. -/
inductive Occurs (top : Node) : Role → Node → Prop where
  | top : Occurs top .declaration top
  | inside {role place : Role} {node inner : Node} (h : Occurs top role node)
      (child : (place, inner) ∈ node.children) : Occurs top place inner

/-- The parameters of a function. -/
def params : Node → List Param
  | functionExpr _ params _ _ _ | functionDecl _ _ params _ _ _ => params
  | _ => []

/-- The names that a node declares or stands for itself. Members of objects are not among them:
they may be keywords as well. -/
def names : Node → List String
  | functionExpr _ params _ _ name | functionDecl _ name params _ _ _ =>
    name :: params.map (·.name)
  | destructuring _ names _ _ => names
  | moduleDecl _ name _ _ | variableDecl _ name _ _ _ | identifier _ name
  | moduleAccess _ _ name => [name]
  | _ => []

/-- What is asked of a node in its place. -/
structure WellFormed (role : Role) (node : Node) : Prop where
  /-- No two parameters have one name. -/
  distinct : (node.params.map (·.name)).Nodup
  /-- Only the last parameter may take all further arguments. -/
  single : ∀ p ∈ node.params.dropLast, p.isRest = false
  /-- Assignments are to names and to members of objects. -/
  target : ∀ line target value, node = .reassignment line target value → target.isTarget = true
  /-- A path of modules begins with a name. -/
  path : ∀ line module member, node = .moduleAccess line module member → module.isPath = true
  operator : ∀ line o left right, node = .binary line o left right → o ∈ Operator.all
  /-- A character is one. -/
  char : ∀ line text, node = .char line text → text.length = 1
  named : ∀ name ∈ node.names, Token.isName name = true
  /-- Objects are only taken apart by instructions. -/
  destructuring : ∀ line names isConst source, node = .destructuring line names isConst source →
    role = .instruction
  /-- Declarations among instructions are not exported. -/
  own : role = .instruction → node.isExported = false

/-! ## What fits is well-formed -/

variable {floats : Prop} {role : Role} {node : Node}

/-- The nodes inside a node that fits fit the places that they have there. -/
theorem Fits.children (h : Fits floats role node) :
    ∀ place ∈ node.children, Fits floats place.1 place.2 := by
  -- a list of nodes in one place fits when each of them does
  have all : ∀ {r : Role} {nodes : List Node}, (∀ i ∈ nodes, Fits floats r i) →
      ∀ place ∈ nodes.map (Prod.mk r), Fits floats place.1 place.2 := by
    intro r nodes hn place hp
    obtain ⟨i, hi, rfl⟩ := List.mem_map.mp hp
    exact hn i hi
  induction h with
  | functionExpr _ _ hbody hresult | functionDecl _ _ hbody hresult =>
    exact List.forall_mem_cons.mpr ⟨hresult, all hbody⟩
  | reassignment _ hleft hright | binary _ hleft hright =>
    exact List.forall_mem_cons.mpr ⟨hleft, List.forall_mem_singleton.mpr hright⟩
  | moduleAccess _ hinner _ | objectAccess hinner _ | variableDecl _ hinner
  | destructuring _ hinner => exact List.forall_mem_singleton.mpr hinner
  | call hcallee hargs => exact all (List.forall_mem_cons.mpr ⟨hcallee, hargs⟩)
  | object hpairs =>
    intro place hp
    obtain ⟨pair, hm, rfl⟩ := List.mem_map.mp hp
    exact hpairs pair hm
  | array helements => exact all helements
  | moduleDecl _ hbody => exact all hbody
  | @conditional _ _ _ elseBody hcondition hbody helse =>
    refine List.forall_mem_cons.mpr ⟨hcondition, all ?_⟩
    intro i hi
    rcases List.mem_append.mp hi with hi | hi
    · exact hbody i hi
    · cases elseBody with
      | none => cases hi
      | some branch => exact helse branch rfl i hi
  | evaluated _ ih | declared _ _ ih => exact ih
  | identifier | string | integer | float | char | bool | undefined => simp [Node.children]

/-- The parameters of a node that fits are in order. -/
theorem Fits.listed (h : Fits floats role node) : Param.Listed node.params := by
  induction h with
  | functionExpr _ listed | functionDecl _ listed => exact listed
  | evaluated _ ih | declared _ _ ih => exact ih
  | _ => exact ⟨by simp [params], by simp [params], by simp [params]⟩

theorem Fits.named (h : Fits floats role node) : ∀ name ∈ node.names, Token.isName name = true := by
  induction h with
  | functionExpr named listed | functionDecl named listed =>
    refine List.forall_mem_cons.mpr ⟨named, ?_⟩
    intro name hname
    obtain ⟨p, hp, rfl⟩ := List.mem_map.mp hname
    exact listed.named p hp
  | moduleAccess _ _ named | identifier named | moduleDecl named | variableDecl named =>
    exact List.forall_mem_singleton.mpr named
  | destructuring named => exact named
  | evaluated _ ih | declared _ _ ih => exact ih
  | _ => simp [names]

/-- Among instructions nothing is exported. -/
theorem Fits.own (h : Fits floats .instruction node) : node.isExported = false := by
  cases h with
  | evaluated h => cases h <;> rfl
  | declared _ own => exact own
  | destructuring | conditional => rfl

/-- A node that fits its place is well-formed there. -/
theorem Fits.wellFormed (h : Fits floats role node) : WellFormed role node where
  distinct := h.listed.distinct
  single := h.listed.single
  target := by
    induction h with
    | reassignment left =>
      intro line target value heq
      cases heq
      exact left
    | evaluated _ ih | declared _ _ ih => exact ih
    | _ => exact fun _ _ _ heq => nomatch heq
  path := by
    induction h with
    | moduleAccess path =>
      intro line module member heq
      cases heq
      exact path
    | evaluated _ ih | declared _ _ ih => exact ih
    | _ => exact fun _ _ _ heq => nomatch heq
  operator := by
    induction h with
    | binary known =>
      intro line o left right heq
      cases heq
      exact known
    | evaluated _ ih | declared _ _ ih => exact ih
    | _ => exact fun _ _ _ _ heq => nomatch heq
  char := by
    induction h with
    | char =>
      intro line text heq
      cases heq
      simp
    | evaluated _ ih | declared _ _ ih => exact ih
    | _ => exact fun _ _ heq => nomatch heq
  named := h.named
  destructuring := by
    rintro line names isConst source rfl
    cases h with
    | evaluated h => cases h
    | declared h => cases h
    | destructuring => rfl
  own := by
    rintro rfl
    exact h.own

/-- What stands in a declaration that fits does, too. -/
theorem Fits.of_occurs {top : Node} (h : Fits floats .declaration top) (ho : Occurs top role node) :
    Fits floats role node := by
  induction ho with
  | top => exact h
  | inside _ child ih => exact ih.children _ child

end Node

/-- Every node in every declaration that is read from a text is well-formed in its place, whether
the text can be read to its end or not. -/
theorem Grammar.program_wellFormed (depth : Nat) (source : String) :
    ∀ top ∈ (program depth source).1, ∀ (role : Role) (node : Node),
      Node.Occurs top role node → Node.WellFormed role node := by
  intro top htop role node hoccurs
  exact ((program_fits depth source top htop).of_occurs hoccurs).wellFormed

/-- An object that is taken apart in a branch, in a text that breaks off later. -/
theorem Grammar.destructuring_in_branch_wellFormed :
    let source := "fn f(a, ...b) \x7b if (a) \x7b const \x7bc, d\x7d = b \x7d \x7d fn"
    let node := Node.destructuring 1 ["c", "d"] true (.identifier 1 "b")
    ∃ top ∈ (program 30 source).1, Node.Occurs top .instruction node ∧
      Node.WellFormed .instruction node := by
  intro source node
  let branch := Node.conditional 1 (.identifier 1 "a") [node] none
  let top := Node.functionDecl 1 "f" [⟨"a", false⟩, ⟨"b", true⟩] [branch] (.undefined 0) false
  have hread : (program 30 source).1 = [top] := by
    dsimp only [source, top, branch, node]
    cbv
  have htop : top ∈ (program 30 source).1 := by simp [hread]
  have hbranch : Node.Occurs top .instruction branch := .inside .top (by simp [top, Node.children])
  have hnode : Node.Occurs top .instruction node :=
    hbranch.inside (by simp [branch, Node.children])
  exact ⟨top, htop, hnode, program_wellFormed 30 source top htop .instruction node hnode⟩

end Scriptlet
