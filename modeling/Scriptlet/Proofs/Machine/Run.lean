import Scriptlet.Machine.Run
import Scriptlet.Proofs.Machine.Effect

/-!
# The effect of evaluation

Evaluation changes the store by permitted steps only, gives references that lead to cells, and fails
with faults that may occur, for every tree, scope and store (`evaluatorsDo`). A node has to be fit
for what the permit promises: if all code is to fit the grammar then so must the node, and in a
scope in which nothing may be declared only an expression of the grammar can be evaluated.

Each construct has a lemma of its own over the evaluators of its parts, as it has a definition of
its own; the five evaluators are then dealt with together, by induction on the nesting depth.
-/

namespace Scriptlet.Eval

variable {π : Permit} {m : Machine}

/-- The node can be evaluated in the scope. -/
structure Ready (π : Permit) (node : Node) (scope : ScopeId) : Prop where
  fits : π.strict → node.Fits True .instruction
  family : π.strict → node.family = .expression
  /-- An expression of the grammar declares nothing itself. -/
  declares : π.Opens scope ∨ node.Fits True .expression

theorem Ready.of_expression {node : Node} {scope : ScopeId}
    (h : π.strict → node.Fits True .expression)
    (hd : π.Opens scope ∨ node.Fits True .expression) : Ready π node scope :=
  ⟨fun hπ => .evaluated (h hπ), fun hπ => (h hπ).family_expression, hd⟩

/-- The parts of a node that can be evaluated can be evaluated in the same scope. -/
theorem Ready.part {node p : Node} {scope : ScopeId} (h : Ready π node scope)
    (hp : p ∈ node.parts) : Ready π p scope :=
  .of_expression (fun hπ => (h.fits hπ).parts_of_instruction (h.family hπ) p hp)
    (h.declares.imp_right fun he => he.parts p hp)

/-- An evaluator of values does as it should. -/
def Evaluates (π : Permit) (eval : Evaluator) : Prop :=
  ∀ node scope m, m.store.Has (.scope scope) → Ready π node scope →
    Does π m (eval node scope) fun v s => s.Holds v

/-- An evaluator of calls does as it should. -/
def Invokes (π : Permit) (invoke : ObjectId → List Value → Eval Value) : Prop :=
  ∀ id args m, m.store.Has (.object id) → (∀ v ∈ args, m.store.Holds v) →
    Does π m (invoke id args) fun v s => s.Holds v

/-- An evaluator of declarations does as it should. -/
def Declares (π : Permit) (entity : Node → ScopeId → Eval Entity) : Prop :=
  ∀ node scope m, m.store.Has (.scope scope) → (π.strict → node.Fits True .declaration) →
    π.Opens scope → Does π m (entity node scope) fun e s => s.Has e.ref

/-- An evaluator of instructions does as it should. -/
def Executes (π : Permit) (instruction : Node → ScopeId → Eval Unit) : Prop :=
  ∀ node scope m, m.store.Has (.scope scope) → (π.strict → node.Fits True .instruction) →
    π.Opens scope → Does π m (instruction node scope) fun _ _ => True

/-! ## Natives -/

theorem refuse_does {α : Type} {native wants : String} {given : List Value}
    {P : α → Store → Prop} : Does π m (Native.refuse native wants given) P :=
  Does.ask_bind (Does.throw fun _ => rfl)

theorem holds_arg {s : Store} {args : List Value} (h : ∀ v ∈ args, s.Holds v) (k : Nat) :
    s.Holds (Native.arg args k) := by
  unfold Native.arg
  cases hk : args[k]? with
  | none => exact Store.holds_undefined
  | some v => exact h v (List.mem_of_getElem? hk)

theorem prototypeArg_does {native : String} {v : Value} (hv : m.store.Holds v) :
    Does π m (Native.prototypeArg native v) fun p s => ∀ id ∈ p, s.Has (.object id) := by
  cases v with
  | undefined => exact Does.pure (by simp)
  | object id =>
    refine Does.pure ?_
    intro p hp
    cases hp
    exact (Store.holds_object id).mp hv
  | _ => exact refuse_does

theorem runPush_does {target v : Value} (ht : m.store.Holds target) (hv : m.store.Holds v) :
    Does π m (Native.runPush target v) fun v s => s.Holds v := by
  cases target with
  | array id =>
    refine Does.bind (Does.change (P := fun _ _ => True) (fun _ => ?_) trivial) ?_
    · exact .pushElement id v ((Store.holds_array id).mp ht) hv
    · intro _ m₁ _ _
      exact Does.ask_bind (Does.pure (Store.holds_primitive _ _))
  | _ => exact refuse_does

theorem runSetPrototype_does {target prototype : Value} (ht : m.store.Holds target)
    (hp : m.store.Holds prototype) :
    Does π m (Native.runSetPrototype target prototype) fun v s => s.Holds v := by
  cases target with
  | object id =>
    refine Does.bind (prototypeArg_does hp) ?_
    intro p m₁ h₁ hp
    refine Does.bind (setPrototype_does (h₁.has ((Store.holds_object id).mp ht)) hp) ?_
    intro _ m₂ h₂ _
    exact Does.pure (h₂.holds (h₁.holds ht))
  | _ => exact refuse_does

/-- No native has an effect that a program could not have. -/
theorem native_does {invoke : ObjectId → List Value → Eval Value} (hi : Invokes π invoke)
    (limit : Nat) (native : Native) {args : List Value} (ha : ∀ v ∈ args, m.store.Holds v) :
    Does π m (native.run invoke limit args) fun v s => s.Holds v := by
  have held := holds_arg ha
  cases native with
  | print =>
    refine Does.query_bind (P := fun _ => True) ?_ ?_
    · intro _
      exact (Answers.mapM args fun v _ => Store.format_answers limit v).mono fun _ _ => trivial
    · intro texts _ _
      refine Does.bind (Does.print _) ?_
      intro _ m₁ _ _
      exact Does.pure Store.holds_undefined
  | len =>
    show Does π m (Native.runLen _) _
    unfold Native.runLen
    split
    · exact Does.pure (Store.holds_primitive _ _)
    · exact Does.ask_bind (Does.pure (Store.holds_primitive _ _))
    · exact Does.ask_bind (Does.pure (Store.holds_primitive _ _))
    · exact refuse_does
  | push => exact runPush_does (held 0) (held 1)
  | «at» =>
    show Does π m (Native.runAt _ _) _
    unfold Native.runAt
    split
    · exact Does.of_sound fun hs => Does.ask (hs.closed.elementAt _ _)
    · exact refuse_does
  | keys =>
    show Does π m (Native.runKeys _) _
    unfold Native.runKeys
    split
    · refine Does.ask_bind (newArray_does ?_)
      intro v hv
      obtain ⟨key, -, rfl⟩ := List.mem_map.mp hv
      exact Store.holds_primitive _ _
    · exact refuse_does
  | typeOf => exact Does.ask_bind (Does.pure (Store.holds_primitive _ _))
  | create =>
    refine Does.bind (prototypeArg_does (held 0)) ?_
    intro p m₁ _ hp
    exact newObject_does hp (by simp)
  | setPrototype => exact runSetPrototype_does (held 0) (held 1)
  | nothing => exact Does.pure Store.holds_undefined
  | first => exact Does.pure (held 0)
  | gather => exact newArray_does ha
  | apply =>
    cases args with
    | nil => exact Does.pure Store.holds_undefined
    | cons v rest =>
      cases v with
      | object id =>
        refine hi id rest m ?_ fun v hv => ha v (List.mem_cons_of_mem _ hv)
        exact (Store.holds_object id).mp (ha _ List.mem_cons_self)
      | _ => exact Does.pure Store.holds_undefined

/-! ## Expressions -/

section Constructs

variable {eval : Evaluator} {invoke : ObjectId → List Value → Eval Value}
  {entity : Node → ScopeId → Eval Entity} {control instruction : Node → ScopeId → Eval Unit}
  {scope : ScopeId}

theorem assignMember_does (he : Evaluates π eval) (limit : Nat) {owner value : Node}
    (member : String) (there : m.store.Has (.scope scope)) (ho : Ready π owner scope)
    (hv : Ready π value scope) :
    Does π m (assignMember eval limit owner member value scope) fun v s => s.Holds v := by
  refine Does.bind (he owner scope m there ho) ?_
  intro target m₁ h₁ ht
  have there₁ := h₁.has there
  cases target with
  | object id =>
    have hid : m₁.store.Has (.object id) := (Store.holds_object id).mp ht
    refine Does.ask_bind ?_
    dsimp only
    split
    · exact Does.throw fun _ => rfl
    · next hw =>
      refine Does.bind (he value scope m₁ there₁ hv) ?_
      intro v m₂ h₂ hv₂
      -- the flags were read before the value was evaluated, and are still those of the property
      have hflags := h₂.flagsOf_eq hid member
      refine Does.bind (Does.change (P := fun _ _ => True) (fun _ => ?_) trivial) ?_
      · refine .setProperty id member _ (h₂.has hid) ?_ ?_ ?_
        · rw [hflags, Store.flagsOf]
          cases (m₁.store.properties id).get? member <;> rfl
        · cases hp : (m₁.store.properties id).get? member with
          | none => rfl
          | some p =>
            rw [hp] at hw
            simpa using hw
        · cases (m₁.store.properties id).get? member <;> exact hv₂
      · intro _ m₃ h₃ _
        exact Does.pure (h₃.holds hv₂)
  | _ =>
    refine Does.query_bind (P := fun _ => True) (fun _ => Store.format_answers limit _) ?_
    intro text _ _
    exact Does.throw fun _ => rfl

theorem assignName_does (he : Evaluates π eval) (name : String) {value : Node}
    (there : m.store.Has (.scope scope)) (hv : Ready π value scope) :
    Does π m (assignName eval name value scope) fun v s => s.Holds v := by
  refine Does.bind (resolve_does scope name) ?_
  intro e m₁ h₁ hr
  cases e with
  | var id =>
    refine Does.bind (he value scope m₁ (h₁.has there) hv) ?_
    intro v m₂ h₂ hv₂
    refine Does.bind (assign_does (h₂.has hr) hv₂) ?_
    intro _ m₃ h₃ _
    exact Does.pure (h₃.holds hv₂)
  | _ => exact Does.throw fun _ => rfl

/-- What stands left of an assignment is a name or a member. -/
theorem reassignment_does (he : Evaluates π eval) (limit : Nat) {line : Nat} {target value : Node}
    (there : m.store.Has (.scope scope)) (h : Ready π (.reassignment line target value) scope) :
    Does π m (reassignment eval limit target value scope) fun v s => s.Holds v := by
  cases target with
  | objectAccess line owner member =>
    exact assignMember_does he limit member there (h.part (by simp [Node.parts]))
      (h.part (by simp [Node.parts]))
  | identifier line name =>
    exact assignName_does he name there (h.part (by simp [Node.parts]))
  | _ =>
    refine Does.throw ?_
    intro hπ
    rcases (h.fits hπ).expression_or_destructuring rfl with hf | ⟨_, _, _, _, hd, _⟩
    · cases hf with
      | reassignment left _ _ => cases left
    · cases hd

theorem destructuring_does (he : Evaluates π eval) (limit : Nat) {line : Nat}
    {names : List String} {isConst : Bool} {source : Node} (there : m.store.Has (.scope scope))
    (h : Ready π (.destructuring line names isConst source) scope) :
    Does π m (destructuring eval limit names isConst source scope) fun v s => s.Holds v := by
  -- it is no expression of the grammar, so it has to be in a scope that is open
  have opens : π.Opens scope := by
    rcases h.declares with h | h
    · exact h
    · cases h
  refine Does.bind (he source scope m there (h.part (by simp [Node.parts]))) ?_
  intro v m₁ h₁ hv
  cases v with
  | object id =>
    refine Does.bind (declareAll_does ?_ opens names m₁ (h₁.has there)) ?_
    · intro s name hs
      exact (Store.holds_detach _).mpr (hs.closed.getProperty id name)
    · intro _ m₂ h₂ _
      exact Does.pure (h₂.holds hv)
  | _ =>
    refine Does.query_bind (P := fun _ => True) (fun _ => Store.format_answers limit _) ?_
    intro text _ _
    exact Does.throw fun _ => rfl

theorem instanceOf_does (he : Evaluates π eval) {v : Value} {type : Node}
    (there : m.store.Has (.scope scope)) (ht : Ready π type scope) :
    Does π m (instanceOf eval v type scope) fun v s => s.Holds v := by
  refine Does.ask_bind ?_
  cases typeTest? m.store type scope with
  | some name => exact Does.ask_bind (Does.pure (Store.holds_primitive _ _))
  | none =>
    refine Does.bind (he type scope m there ht) ?_
    intro prototype m₁ _ _
    refine Does.query_bind (fun _ => Store.isInstance_answers v prototype) ?_
    intro b _ _
    exact Does.pure (Store.holds_primitive _ _)

theorem binary_does (he : Evaluates π eval) (limit : Nat) {line : Nat} {o : Operator}
    {left right : Node} (there : m.store.Has (.scope scope))
    (h : Ready π (.binary line o left right) scope) :
    Does π m (binary eval limit o left right scope) fun v s => s.Holds v := by
  have hright : Ready π right scope := h.part (by simp [Node.parts])
  have known : π.strict → o ∈ Operator.all := by
    intro hπ
    rcases (h.fits hπ).expression_or_destructuring rfl with hf | ⟨_, _, _, _, hd, _⟩
    · cases hf with
      | binary known _ _ => exact known
    · cases hd
  refine Does.bind (he left scope m there (h.part (by simp [Node.parts]))) ?_
  intro a m₁ h₁ _
  split
  · exact instanceOf_does he (h₁.has there) hright
  · next hi =>
    refine Does.bind (he right scope m₁ (h₁.has there) hright) ?_
    intro b m₂ _ _
    exact Does.query fun _ => Store.operate_answers limit known hi a b

theorem callee_does (he : Evaluates π eval) (limit : Nat) {node : Node}
    (there : m.store.Has (.scope scope)) (h : Ready π node scope) :
    Does π m (callee eval limit node scope) fun id s => s.Has (.object id) := by
  unfold callee
  split
  · exact Does.query fun hs => Store.calleeOf_answers hs.closed scope _
  · refine Does.bind (he _ scope m there h) ?_
    intro v m₁ _ hv
    exact Does.query fun _ => Store.asFunction_answers limit hv

theorem values_does (he : Evaluates π eval) {nodes : List Node}
    (there : m.store.Has (.scope scope)) (h : ∀ node ∈ nodes, Ready π node scope) :
    Does π m (nodes.mapM (eval · scope)) fun vs s => ∀ v ∈ vs, s.Holds v :=
  Does.mapM (P := fun v s => s.Holds v) (fun _ _ _ hc hv => hc.holds hv) nodes
    fun node hn m' hm => he node scope m' (hm.has there) (h node hn)

theorem call_does (he : Evaluates π eval) (hi : Invokes π invoke) (limit : Nat) {line : Nat}
    {function : Node} {args : List Node} (there : m.store.Has (.scope scope))
    (h : Ready π (.call line function args) scope) :
    Does π m (call eval invoke limit function args scope) fun v s => s.Holds v := by
  refine Does.bind (callee_does he limit there (h.part (by simp [Node.parts]))) ?_
  intro id m₁ h₁ hid
  have finish : ∀ m₂ : Machine, Changes π m₁.store m₂.store →
      Does π m₂ (do let values ← args.mapM (eval · scope); invoke id values)
        fun v s => s.Holds v := by
    intro m₂ h₂
    refine Does.bind (values_does he (h₂.has (h₁.has there)) fun node hn => h.part ?_) ?_
    · exact List.mem_cons_of_mem _ hn
    intro values m₃ h₃ hv
    exact hi id values m₃ (h₃.has (h₂.has hid)) hv
  refine Does.ask_bind ?_
  dsimp only
  split
  · refine Does.bind (Does.query (P := fun _ _ => True) fun hs => ?_) ?_
    · exact Store.checkArity_answers hs id args.length
    · intro _ m₂ h₂ _
      exact finish m₂ h₂
  · exact finish m₁ (refl m₁.store)

theorem entries_does (he : Evaluates π eval) :
    ∀ (pairs : List (String × Node)) (found : Table Property) (m : Machine),
      m.store.Has (.scope scope) → (∀ pair ∈ pairs, Ready π pair.2 scope) →
      (∀ entry ∈ found, m.store.Holds entry.2.value) →
      Does π m (entries eval scope pairs found) fun t s => ∀ entry ∈ t, s.Holds entry.2.value
  | [], found, m, _, _, hf => Does.pure hf
  | (key, node) :: rest, found, m, there, hp, hf => by
    refine Does.bind (he node scope m there (hp _ List.mem_cons_self)) ?_
    intro v m₁ h₁ hv
    refine entries_does he rest _ m₁ (h₁.has there) ?_ ?_
    · intro pair hpair
      exact hp pair (List.mem_cons_of_mem _ hpair)
    · intro entry hentry
      rcases Table.mem_put hentry with hentry | rfl
      · exact h₁.holds (hf entry hentry)
      · exact hv

/-- What the grammar promises of a node that is evaluated, unless it takes an object apart. -/
theorem Ready.expression {node : Node} (h : Ready π node scope)
    (hd : ∀ line names isConst source, node ≠ .destructuring line names isConst source)
    (hπ : π.strict) : node.Fits True .expression := by
  rcases (h.fits hπ).expression_or_destructuring (h.family hπ) with he | ⟨_, _, _, _, he, _⟩
  · exact he
  · exact absurd he (hd _ _ _ _)

theorem valueOf_does (he : Evaluates π eval) (hi : Invokes π invoke) (limit : Nat) {node : Node}
    (there : m.store.Has (.scope scope)) (h : Ready π node scope) :
    Does π m (valueOf eval invoke limit node scope) fun v s => s.Holds v := by
  cases node with
  | functionExpr line params body result name =>
    refine Does.map (newClosure_does there ?_) fun id s hf =>
      (Store.holds_object id).mpr hf.object_of_function
    intro hπ
    cases h.expression (by simp) hπ with
    | functionExpr named listed hbody hresult => exact ⟨listed, hbody, hresult⟩
  | reassignment line target value => exact reassignment_does he limit there h
  | moduleAccess line path name =>
    rw [valueOf]
    refine Does.query fun hs => ?_
    have hpath : π.strict → path.isPath = true ∧ path.Fits True .expression := by
      intro hπ
      cases h.expression (by simp) hπ with
      | moduleAccess hpath hmodule named => exact ⟨hpath, hmodule⟩
    refine Answers.bind (Store.pathModule_answers hs.closed scope limit path
      (fun hπ => (hpath hπ).1) fun hπ => (hpath hπ).2) ?_
    intro module _
    refine Answers.bind (Store.member_answers hs.closed module name) ?_
    intro e hr
    exact Store.entityValue_answers hs.closed hr name
  | destructuring line names isConst source => exact destructuring_does he limit there h
  | objectAccess line target member =>
    refine Does.bind (he target scope m there (h.part (by simp [Node.parts]))) ?_
    intro v m₁ _ _
    exact Does.query fun hs => Store.readMember_answers hs.closed limit v member
  | binary line o left right => exact binary_does he limit there h
  | call line function args => exact call_does he hi limit there h
  | identifier line name =>
    refine Does.bind (resolve_does scope name) ?_
    intro e m₁ _ hr
    exact Does.query fun hs => Store.entityValue_answers hs.closed hr name
  | object line pairs =>
    refine Does.bind (entries_does he pairs [] m there ?_ (by simp)) ?_
    · intro pair hp
      exact h.part (List.mem_map_of_mem hp)
    · intro t m₁ _ ht
      exact newObject_does (by simp) ht
  | array line elements =>
    refine Does.bind (values_does he there fun node hn => h.part hn) ?_
    intro vs m₁ _ hvs
    exact newArray_does hvs
  | char line text =>
    rw [valueOf]
    split
    · exact Does.pure (Store.holds_primitive _ _)
    · next hone =>
      refine Does.throw ?_
      intro hπ
      cases h.expression (by simp) hπ with
      | char => exact (hone _ (String.toList_ofList ..)).elim
  | undefined line => exact Does.pure Store.holds_undefined
  | string line text => exact Does.pure (Store.holds_primitive _ _)
  | integer line n => exact Does.pure (Store.holds_primitive _ _)
  | float line x => exact Does.pure (Store.holds_primitive _ _)
  | bool line b => exact Does.pure (Store.holds_primitive _ _)
  | _ =>
    refine Does.throw ?_
    intro hπ
    cases h.expression (by simp) hπ

/-! ## Declarations and statements -/

theorem declarations_does (hn : Declares π entity) (opens : π.Opens scope) :
    ∀ (nodes : List Node) (m : Machine), m.store.Has (.scope scope) →
      (π.strict → ∀ node ∈ nodes, node.Fits True .declaration) →
      Does π m (declarations entity scope nodes) fun _ _ => True
  | [], m, _, _ => Does.pure trivial
  | node :: rest, m, there, hf => by
    refine Does.bind (hn node scope m there (fun hπ => hf hπ node List.mem_cons_self) opens) ?_
    intro e m₁ h₁ hr
    refine Does.bind (declare_does (h₁.has there) hr (opens _)) ?_
    intro _ m₂ h₂ _
    refine declarations_does hn opens rest m₂ (h₂.has (h₁.has there)) ?_
    intro hπ other ho
    exact hf hπ other (List.mem_cons_of_mem _ ho)

theorem entityOf_does (he : Evaluates π eval) (hn : Declares π entity) {node : Node}
    (there : m.store.Has (.scope scope)) (hf : π.strict → node.Fits True .declaration)
    (opens : π.Opens scope) :
    Does π m (entityOf eval entity node scope) fun e s => s.Has e.ref := by
  cases node with
  | functionDecl line name params body result isExported =>
    refine Does.map (newClosure_does there ?_) fun id s hid => hid
    intro hπ
    cases hf hπ with
    | functionDecl named listed hbody hresult => exact ⟨listed, hbody, hresult⟩
  | moduleDecl line name body isExported =>
    refine Does.bind (newScope_does ?_) ?_
    · intro p hp
      cases hp
      exact there
    intro own m₁ _ ⟨hown, fresh⟩
    refine Does.bind (declarations_does hn (Permit.opens fresh) body m₁ hown ?_) ?_
    · intro hπ
      cases hf hπ with
      | moduleDecl named hbody => exact hbody
    · intro _ m₂ h₂ _
      exact Does.pure (h₂.has hown)
  | variableDecl line name isConst value isExported =>
    refine Does.bind (he value scope m there (.of_expression ?_ (Or.inl opens))) ?_
    · intro hπ
      cases hf hπ with
      | variableDecl named hvalue => exact hvalue
    · intro v m₁ _ hv
      exact (newVariable_does hv).mono fun _ _ _ hr => hr.1
  | _ =>
    refine Does.throw ?_
    intro hπ
    cases hf hπ

theorem instructions_does (hx : Executes π instruction) (opens : π.Opens scope) :
    ∀ (nodes : List Node) (m : Machine), m.store.Has (.scope scope) →
      (π.strict → ∀ node ∈ nodes, node.Fits True .instruction) →
      Does π m (instructions instruction scope nodes) fun _ _ => True
  | [], m, _, _ => Does.pure trivial
  | node :: rest, m, there, hf => by
    refine Does.bind (hx node scope m there (fun hπ => hf hπ node List.mem_cons_self) opens) ?_
    intro _ m₁ h₁ _
    refine instructions_does hx opens rest m₁ (h₁.has there) ?_
    intro hπ other ho
    exact hf hπ other (List.mem_cons_of_mem _ ho)

/-- A branch declares in a scope of its own. -/
theorem controlOf_does (he : Evaluates π eval) (hx : Executes π instruction) {node : Node}
    (there : m.store.Has (.scope scope)) (hf : π.strict → node.Fits True .instruction)
    (opens : π.Opens scope) :
    Does π m (controlOf eval instruction node scope) fun _ _ => True := by
  cases node with
  | conditional line condition body elseBody =>
    have parts : π.strict → condition.Fits True .expression ∧
        (∀ i ∈ body, i.Fits True .instruction) ∧
        ∀ branch ∈ elseBody, ∀ i ∈ branch, i.Fits True .instruction := by
      intro hπ
      cases hf hπ with
      | conditional hcondition hbody helse => exact ⟨hcondition, hbody, helse⟩
      | evaluated h => cases h
      | declared h own => cases h
    refine Does.bind (he condition scope m there
      (.of_expression (fun hπ => (parts hπ).1) (Or.inl opens))) ?_
    intro v m₁ h₁ _
    split
    · exact Does.pure trivial
    · next branch hb =>
      refine Does.ask_bind (Does.bind (newScope_does ?_) ?_)
      · intro p hp
        cases hp
        exact h₁.has there
      intro own m₂ _ ⟨hown, fresh⟩
      refine instructions_does hx (Permit.opens fresh) branch m₂ hown ?_
      intro hπ
      split at hb
      · cases hb
        exact (parts hπ).2.1
      · exact (parts hπ).2.2 branch hb
  | _ => exact Does.note _

theorem instructionOf_does (he : Evaluates π eval) (hn : Declares π entity)
    (hc : Executes π control) {node : Node} (there : m.store.Has (.scope scope))
    (hf : π.strict → node.Fits True .instruction) (opens : π.Opens scope) :
    Does π m (instructionOf eval entity control node scope) fun _ _ => True := by
  unfold instructionOf
  split
  · next hfamily =>
    refine Does.bind (he node scope m there ⟨hf, fun _ => hfamily, Or.inl opens⟩) ?_
    intro _ m₁ _ _
    exact Does.pure trivial
  · exact hc node scope m there hf opens
  · next hfamily =>
    refine Does.bind (hn node scope m there
      (fun hπ => (hf hπ).declaration_of_family hfamily) opens) ?_
    intro e m₁ h₁ hr
    refine Does.bind (declare_does (h₁.has there) hr (opens _)) ?_
    intro _ m₂ _ _
    exact Does.ask_bind (Does.ask_bind (Does.note _))
  · next hfamily =>
    refine Does.throw ?_
    intro hπ
    exact absurd hfamily (hf hπ).family_ne_stray

/-! ## Calls -/

/-- A call declares in a scope of its own, inside the one that the function was defined in. -/
theorem callClosure_does (he : Evaluates π eval) (hx : Executes π instruction) (name : String)
    {c : Closure} {args : List Value} (around : m.store.Has (.scope c.scope))
    (held : ∀ v ∈ args, m.store.Holds v) (code : π.strict → (Callable.closure c).Fits) :
    Does π m (callClosure eval instruction name c args) fun v s => s.Holds v := by
  refine Does.bind (bindArguments_does around held) ?_
  intro scope m₁ _ ⟨there, opens⟩
  refine Does.bind (instructions_does hx opens c.body m₁ there fun hπ => (code hπ).2.1) ?_
  intro _ m₂ h₂ _
  refine Does.bind (checkEscape_does name c scope) ?_
  intro _ m₃ h₃ _
  split
  · exact Does.pure Store.holds_undefined
  · exact he c.result scope m₃ (h₃.has (h₂.has there))
      (.of_expression (fun hπ => (code hπ).2.2) (Or.inl opens))

theorem invokeOf_does (he : Evaluates π eval) (hx : Executes π instruction)
    (hi : Invokes π invoke) (limit : Nat) {id : ObjectId} {args : List Value}
    (held : ∀ v ∈ args, m.store.Holds v) :
    Does π m (invokeOf eval instruction invoke limit id args) fun v s => s.Holds v := by
  refine Does.query_bind (fun hs => Store.checkArity_answers hs id args.length) ?_
  intro _ _ _
  refine Does.of_sound fun hs => Does.ask_bind ?_
  cases hf : m.store.function? id with
  | none => exact Does.pure Store.holds_undefined
  | some f =>
    refine Does.bind (Does.note _) ?_
    intro _ m₁ h₁ _
    have held₁ : ∀ v ∈ args, m₁.store.Holds v := fun v hv => h₁.holds (held v hv)
    split
    · next action arity hcall => exact native_does hi limit action held₁
    · next c hcall =>
      refine callClosure_does he hx f.name (h₁.has (hs.closed.closure hf hcall)) held₁ ?_
      intro hπ
      rw [← hcall]
      exact hs.coded hπ id f hf
    · exact Does.pure Store.holds_undefined

end Constructs

/-! ## The five evaluators -/

/-- What the five evaluators do at a nesting depth. -/
structure EvaluatorsDo (π : Permit) (depth : Nat) : Prop where
  value : Evaluates π (value depth)
  entity : Declares π (entity depth)
  control : Executes π (control depth)
  instruction : Executes π (instruction depth)
  invoke : Invokes π (invoke depth)

/-- Evaluation does only what it may, to any depth. -/
theorem evaluatorsDo (π : Permit) : ∀ depth, EvaluatorsDo π depth
  | 0 =>
    have overflows : π.Admits .overflow := fun _ => rfl
    { value := fun _ _ _ _ _ => Does.throw overflows
      entity := fun _ _ _ _ _ _ => Does.throw overflows
      control := fun _ _ _ _ _ _ => Does.throw overflows
      instruction := fun _ _ _ _ _ _ => Does.throw overflows
      invoke := fun _ _ _ _ _ => Does.throw overflows }
  | depth + 1 =>
    have ih := evaluatorsDo π depth
    { value := fun _ _ _ there h => valueOf_does ih.value ih.invoke depth there h
      entity := fun _ _ _ there hf opens => entityOf_does ih.value ih.entity there hf opens
      control := fun _ _ _ there hf opens =>
        controlOf_does ih.value ih.instruction there hf opens
      instruction := fun _ _ _ there hf opens =>
        instructionOf_does ih.value ih.entity ih.control there hf opens
      invoke := fun _ _ _ _ held => invokeOf_does ih.value ih.instruction ih.invoke depth held }

end Scriptlet.Eval
