import Scriptlet.Proofs.Session.Frame

/-!
# Loading in turns is loading in one go

A load evaluates each declaration before it reads the next one. It might as well read the whole text
first, evaluate the declarations that could be read, and only then complain about the rest
(`load_eq_declarations`): reading does not look at the machine, and what stops it stops it at the
same place.

So a load that fails has taken effect up to a declaration. Evaluating a declaration adds nothing to
the main scope by itself, and a declaration that is registered adds its own name behind the others
(`entries_of_registered`), so the main scope has what it had and the declarations before that one.
-/

namespace Scriptlet

/-- The name that a declaration declares. -/
def Node.declaredName : Node → String
  | .functionDecl _ name _ _ _ _ | .moduleDecl _ name _ _ | .variableDecl _ name _ _ _ => name
  | _ => ""

/-! ## Reading ahead -/

namespace Grammar

/-- The declarations found before stand in front of those still to be read. -/
theorem rootsFrom_found (depth : Nat) : ∀ (bound : List Token) (found : List Node)
    (stream : Stream), rootsFrom depth bound found stream =
      (found.reverse ++ (rootsFrom depth bound [] stream).1, (rootsFrom depth bound [] stream).2)
  | bound, found, stream => by
    unfold rootsFrom
    cases Reader.finished stream with
    | error fault after => simp
    | ok ended after =>
      cases ended with
      | true => simp
      | false =>
        dsimp only
        cases root depth after with
        | error fault final => simp
        | ok node final =>
          cases bound with
          | nil => simp
          | cons t bound =>
            dsimp only
            rw [rootsFrom_found depth bound (node :: found), rootsFrom_found depth bound [node]]
            simp

end Grammar

namespace Session

open Eval

/-- Fails with a fault, if there is one. -/
def raise : Option Fault → Eval Unit
  | some fault => throw fault
  | none => return ()

theorem interleave_eq_declarations (limit : Nat) : ∀ (bound : List Token) (stream : Stream),
    interleave (Grammar.root limit) (fun node => do let _ ← register limit node) bound stream =
      (do
        declarations (entity limit) mainScope (Grammar.rootsFrom limit bound [] stream).1
        raise (Grammar.rootsFrom limit bound [] stream).2.1)
  | bound, stream => by
    unfold interleave Grammar.rootsFrom
    cases Reader.finished stream with
    | error fault after => rfl
    | ok ended after =>
      cases ended with
      | true => rfl
      | false =>
        dsimp only
        cases Grammar.root limit after with
        | error fault final => rfl
        | ok node final =>
          cases bound with
          | nil => simp [declarations, register, raise]
          | cons t bound =>
            dsimp only
            rw [interleave_eq_declarations limit bound final,
              Grammar.rootsFrom_found limit bound [node]]
            simp [declarations, register]

/-- Loading is reading all that can be read, declaring it, and failing with what stopped the
reading. -/
theorem load_eq_declarations (limit : Nat) (source : String) :
    load limit source =
      (do
        declarations (entity limit) mainScope (Grammar.program limit source).1
        raise (Grammar.program limit source).2) :=
  interleave_eq_declarations limit _ _

/-! ## One declaration -/

/-- The store can be loaded into: no reference leads nowhere, and the main scope is there. -/
structure Intact (s : Store) : Prop where
  closed : s.Closed
  main : s.Has (.scope mainScope)

variable {m m' : Machine} {limit : Nat} {node : Node} {e : Entity} {f : Fault}

/-- An entity has the name of its declaration. -/
theorem entityName_of_entity {scope : ScopeId} (hf : node.Fits True .declaration)
    (h : entity limit node scope m = .ok e m') : m'.store.entityName e = node.declaredName := by
  cases limit with
  | zero => cases h
  | succ depth =>
    change entityOf _ _ node scope m = .ok e m' at h
    cases hf with
    | functionDecl named listed hbody hresult =>
      obtain ⟨id, m₁, hnew, hret⟩ := bind_eq_ok h
      cases hret
      unfold newClosure at hnew
      split at hnew
      · cases hnew
      · cases hnew
        simp [Store.entityName, Store.function?, Store.objectAt?, Node.declaredName]
    | moduleDecl named hbody =>
      obtain ⟨own, m₁, -, hrest⟩ := bind_eq_ok h
      obtain ⟨_, m₂, -, hret⟩ := bind_eq_ok hrest
      cases hret
      rfl
    | variableDecl named hvalue =>
      obtain ⟨v, m₁, -, hnew⟩ := bind_eq_ok h
      obtain ⟨id, m₂, hadd, hret⟩ := bind_eq_ok hnew
      cases hret
      cases hadd
      simp [Store.entityName, Store.variableAt?, Node.declaredName]

/-- Evaluating a declaration that was read declares nothing in the scope itself. -/
theorem entity_does_declare_nothing (π : Permit) (hπ : ¬ π.strict) (limit : Nat) {scope : ScopeId}
    (there : m.store.Has (.scope scope)) (hf : node.Fits True .declaration) :
    Does π m (entity limit node scope) fun e s => s.Has e.ref := by
  have lax : ∀ {P : Prop}, π.strict → P := fun h => absurd h hπ
  cases limit with
  | zero => exact Does.throw lax
  | succ depth =>
    have hdo := evaluatorsDo π depth
    cases hf with
    | functionDecl named listed hbody hresult =>
      exact Does.map (newClosure_does there lax) fun _ _ hid => hid
    | moduleDecl named hbody =>
      refine Does.bind (newScope_does ?_) ?_
      · intro p hp
        cases hp
        exact there
      intro own m₁ _ ⟨hown, fresh⟩
      refine Does.bind (declarations_does hdo.entity (Permit.opens fresh) _ m₁ hown lax) ?_
      intro _ m₂ h₂ _
      exact Does.pure (h₂.has hown)
    | variableDecl named hvalue =>
      refine Does.bind (hdo.value _ scope m there (.of_expression lax (Or.inr hvalue))) ?_
      intro v m₁ _ hv
      exact (newVariable_does hv).mono fun _ _ _ hr => hr.1

theorem Intact.entity (h : Intact m.store) (limit : Nat) (hf : node.Fits True .declaration) :
    Intact (final (entity limit node mainScope) m).store ∧
      (final (entity limit node mainScope) m).store.entries mainScope =
        m.store.entries mainScope := by
  have hsound : m.store.Sound (.inScope m.store mainScope False) := h.closed.sound_inScope
  have hchanges :=
    (entity_does_declare_nothing _ id limit h.main hf).changes_final hsound
  exact ⟨⟨(hchanges.sound hsound).closed, hchanges.has h.main⟩, hchanges.entries_eq_inScope h.main⟩

/-- Registering a declaration leaves the store intact, whether it succeeds or not. -/
theorem Intact.register (h : Intact m.store) (limit : Nat) (hf : node.Fits True .declaration) :
    Intact (final (register limit node) m).store := by
  have hosts : Hosts (.inScope m.store mainScope True) := ⟨h.main, fun _ => Or.inr ⟨rfl, trivial⟩⟩
  have hsound : m.store.Sound (.inScope m.store mainScope True) := h.closed.sound_inScope
  have hchanges := (register_does hosts limit hf).changes_final hsound
  exact ⟨(hchanges.sound hsound).closed, hchanges.has h.main⟩

theorem final_of_ok {α : Type} {act : Eval α} {a : α} (h : act m = .ok a m') :
    final act m = m' := by
  rw [final, h]

theorem final_of_error {α : Type} {act : Eval α} (h : act m = .error f m') : final act m = m' := by
  rw [final, h]

/-- A declaration that is registered adds its name behind the others. -/
theorem Intact.entries_of_registered (h : Intact m.store) (hf : node.Fits True .declaration)
    (hr : Session.register limit node m = .ok e m') :
    m'.store.entries mainScope = m.store.entries mainScope ++ [(node.declaredName, e)] := by
  obtain ⟨e', m₁, hentity, hrest⟩ := bind_eq_ok hr
  obtain ⟨_, m₂, hdeclare, hret⟩ := bind_eq_ok hrest
  cases hret
  have hafter := h.entity limit hf
  rw [final_of_ok hentity] at hafter
  by_cases hfree : m₁.store.isFree mainScope (m₁.store.entityName e) = true
  · rw [declare_of_free hfree] at hdeclare
    cases hdeclare
    have hscope : m₁.store.scopeAt? mainScope = some _ := Array.getElem?_eq_getElem hafter.1.main
    rw [Store.entries_bind _ hscope, hafter.2, entityName_of_entity hf hentity]
  · rw [declare_of_taken hfree] at hdeclare
    cases hdeclare

/-- A declaration that cannot be registered adds nothing. -/
theorem Intact.entries_of_refused (h : Intact m.store) (hf : node.Fits True .declaration)
    (hr : Session.register limit node m = .error f m') :
    m'.store.entries mainScope = m.store.entries mainScope := by
  have hsame := (h.entity limit hf).2
  rcases bind_eq_error hr with hentity | ⟨e, m₁, hentity, hrest⟩
  · rwa [final_of_error hentity] at hsame
  · rw [final_of_ok hentity] at hsame
    rcases bind_eq_error hrest with hdeclare | ⟨_, m₂, -, hret⟩
    · by_cases hfree : m₁.store.isFree mainScope (m₁.store.entityName e) = true
      · rw [declare_of_free hfree] at hdeclare
        cases hdeclare
      · rw [declare_of_taken hfree] at hdeclare
        cases hdeclare
        exact hsame
    · cases hret

/-! ## Any number of declarations -/

/-- Declarations that are all registered add their names, in order. -/
theorem Intact.entries_of_all_registered : ∀ {nodes : List Node} {es : List Entity} {m : Machine},
    Intact m.store → (∀ node ∈ nodes, node.Fits True .declaration) →
    nodes.mapM (Session.register limit) m = .ok es m' →
    Intact m'.store ∧ m'.store.entries mainScope =
      m.store.entries mainScope ++ (nodes.map Node.declaredName).zip es
  | [], es, m, h, _, hr => by
    rw [List.mapM_nil] at hr
    cases hr
    exact ⟨h, by simp⟩
  | node :: nodes, es, m, h, hf, hr => by
    rw [List.mapM_cons] at hr
    obtain ⟨e, m₁, he, hr⟩ := bind_eq_ok hr
    obtain ⟨rest, m₂, hrest, hr⟩ := bind_eq_ok hr
    cases hr
    have hnode := hf node List.mem_cons_self
    have hintact := h.register limit hnode
    rw [final_of_ok he] at hintact
    obtain ⟨hafter, hentries⟩ := Intact.entries_of_all_registered hintact
      (fun n hn => hf n (List.mem_cons_of_mem _ hn)) hrest
    refine ⟨hafter, ?_⟩
    rw [hentries, h.entries_of_registered hnode he]
    simp

/-- Declaring is registering one after the other. -/
theorem declarations_eq_mapM (limit : Nat) : ∀ nodes : List Node,
    declarations (entity limit) mainScope nodes = (do let _ ← nodes.mapM (register limit))
  | [] => by simp [declarations]
  | node :: nodes => by simp [declarations, declarations_eq_mapM limit nodes, register]

/-- Loading a text is reading it to the end or to the first problem, evaluating and declaring the
declarations read, and failing with the problem. If a load fails in a store whose references all
lead somewhere, as those of a session do (`play_spec`), whether a declaration cannot be registered
or the text cannot be read, the main scope has the names that it had, and behind them those of the
declarations before, in order. -/
theorem load_commits_declarations_before_fault (limit : Nat) (source : String) (m : Machine) :
    let nodes := (Grammar.program limit source).1
    let fault := (Grammar.program limit source).2
    load limit source m = (do declarations (entity limit) mainScope nodes; raise fault) m ∧
      (m.store.Closed → m.store.Has (.scope mainScope) → ∀ f m', load limit source m = .error f m' →
        ∃ k es m₁, (nodes.take k).mapM (register limit) m = .ok es m₁ ∧
          m'.store.entries mainScope =
            m.store.entries mainScope ++ ((nodes.take k).map Node.declaredName).zip es ∧
          ((∃ node, nodes[k]? = some node ∧ register limit node m₁ = .error f m') ∨
            k = nodes.length ∧ fault = some f ∧ m' = m₁)) := by
  intro nodes fault
  have hfits : ∀ node ∈ nodes, node.Fits True .declaration := Grammar.program_fits limit source
  refine ⟨congrFun (load_eq_declarations limit source) m, ?_⟩
  intro hclosed hmain f m' hload
  have hintact : Intact m.store := ⟨hclosed, hmain⟩
  rw [load_eq_declarations, declarations_eq_mapM] at hload
  rcases bind_eq_error hload with hdecl | ⟨_, m₁, hdecl, hraise⟩
  · -- a declaration could not be registered
    rcases bind_eq_error hdecl with hdecl | ⟨_, _, -, hret⟩
    · obtain ⟨k, node, es, m₁, hk, hbefore, hnode⟩ := mapM_eq_error hdecl
      have hfirst : ∀ n ∈ nodes.take k, n.Fits True .declaration :=
        fun n hn => hfits n (List.mem_of_mem_take hn)
      obtain ⟨hintact₁, hentries⟩ := hintact.entries_of_all_registered hfirst hbefore
      refine ⟨k, es, m₁, hbefore, ?_, Or.inl ⟨node, hk, hnode⟩⟩
      rw [hintact₁.entries_of_refused (hfits node (List.mem_of_getElem? hk)) hnode, hentries]
    · cases hret
  · -- all were registered, and the reading had been stopped
    obtain ⟨es, m₂, hall, hret⟩ := bind_eq_ok hdecl
    cases hret
    obtain ⟨-, hentries⟩ := hintact.entries_of_all_registered hfits hall
    cases hfault : fault with
    | none =>
      rw [show (Grammar.program limit source).2 = none from hfault] at hraise
      cases hraise
    | some g =>
      rw [show (Grammar.program limit source).2 = some g from hfault] at hraise
      cases hraise
      refine ⟨nodes.length, es, m', ?_, ?_, Or.inr ⟨rfl, rfl, rfl⟩⟩
      · rwa [List.take_length]
      · rwa [List.take_length]

/-- A text that declares a name twice: the first declaration stays. -/
theorem load_of_repeated_name :
    let source := "const a = 1 const a = 2"
    let nodes := (Grammar.program 9 source).1
    let m := start false
    m.store.Closed ∧ m.store.Has (.scope mainScope) ∧
      ∃ m', load 9 source m = .error (.alreadyDefined "a" "main") m' ∧
        ∃ k es m₁, (nodes.take k).mapM (register 9) m = .ok es m₁ ∧
          m'.store.entries mainScope =
            m.store.entries mainScope ++ ((nodes.take k).map Node.declaredName).zip es := by
  intro source nodes m
  have hclosed : m.store.Closed := closed_firstStore
  have hmain : m.store.Has (.scope mainScope) := by decide
  have hfault : (match load 9 source m with
      | .error f _ => some f
      | .ok _ _ => none) = some (.alreadyDefined "a" "main") := by
    dsimp only [source, m]
    cbv
  refine ⟨hclosed, hmain, ?_⟩
  split at hfault
  · next f m' hload =>
    cases hfault
    obtain ⟨k, es, m₁, hbefore, hentries, -⟩ :=
      (load_commits_declarations_before_fault 9 source m).2 hclosed hmain _ m' hload
    exact ⟨m', hload, k, es, m₁, hbefore, hentries⟩
  · cases hfault

end Session

end Scriptlet
