import Scriptlet.Proofs.Machine.Renaming
import Scriptlet.Proofs.Session.EntryPoint
import Scriptlet.Proofs.Session.Join
import Scriptlet.Proofs.Store.Exchange

/-!
# The order of functions does not matter

Two functions of different names that are declared one after the other can change places: the
program prints the same and ends in the same way.

The functions come into each other's cells, and their names stand the other way round in the table
of the main module. So after the two declarations the stores are the same up to a swap of two cells
(`Store.withFunction_swapped`), and from then on nothing can tell them apart
(`Eval.evaluatorsInStep`). A run is compared with `runDeclared`, which runs declarations that have
been read already; a text is run as its declarations are (`shown_run`), whatever their lines
(`shown_runDeclared_of_unlined`).
-/

namespace Scriptlet

/-- Does the node declare a function? -/
def Node.isFunctionDecl : Node → Bool
  | .functionDecl .. => true
  | _ => false

namespace Session

open Eval

variable {m : Machine}

/-! ## Running declarations -/

/-- What a run does once everything is declared: `main` is looked for and executed. -/
def runMain (limit : Nat) (argv : List String) : Eval Unit := do
  let (name, c) ← query entryPoint
  bindArgs argv
  enter limit name c

/-- Runs declarations that have been read already, with what stopped the reading, if anything. -/
def runDeclared (limit : Nat) (nodes : List Node) (stopped : Option Fault) (argv : List String) :
    Eval Unit := do
  declarations (entity limit) mainScope nodes
  raise stopped
  runMain limit argv

/-- What can be seen of an outcome from outside: how it ended and what was printed. -/
def shown : EStateM.Result Fault Machine Unit → Option Fault × String
  | .ok _ m => (none, m.output)
  | .error fault m => (some fault, m.output)

/-- What is erased cannot be seen, if faults and the output are left as they are. -/
theorem shown_of_mirrors {e : Erasure Fault Machine} (hfault : ∀ f, e.fault f = f)
    (houtput : ∀ m, (e.state m).output = m.output) {act act' : Eval Unit}
    (h : e.Mirrors id act act') (m : Machine) : shown (act' (e.state m)) = shown (act m) := by
  rw [h.outcome_eq]
  cases act m with
  | ok u n => exact congrArg (Prod.mk none) (houtput n)
  | error f n =>
    show (some (e.fault f), (e.state n).output) = (some f, n.output)
    rw [hfault, houtput]

theorem runMain_composed (limit : Nat) (argv : List String) : Composed (runMain limit argv) := by
  have hargs : Composed (bindArgs argv) :=
    (Composed.change _).bind fun _ => (newArray_composed _).bind fun _ =>
      (newVariable_composed ..).bind fun e => declare_composed e standardScope
  refine (Composed.query _).bind fun main => hargs.bind fun _ => ?_
  cases limit with
  | zero => exact .throw _
  | succ depth =>
    rw [enter_eq]
    exact (body_composed depth main.1 main.2).bind fun scope => .change _

/-- A run of a text shows what a run of its declarations shows. -/
theorem shown_run (limit : Nat) (source : String) (argv : List String) (m : Machine) :
    shown (run limit source argv m) =
      shown (runDeclared limit (Grammar.program limit source).1 (Grammar.program limit source).2
        argv m) := by
  have hmain := (runMain_composed limit argv).ignores_trace
  have hdeclared : runDeclared limit (Grammar.program limit source).1
      (Grammar.program limit source).2 argv =
        load limit source >>= fun _ => runMain limit argv := by
    simp only [runDeclared, load_eq_declarations, bind_assoc]
  have hrun : traceless.Mirrors id (run limit source argv)
      (load limit source >>= fun _ => runMain limit argv) :=
    (reading_erases_to_load limit source).next fun _ => hmain
  have hload : traceless.Mirrors id (load limit source >>= fun _ => runMain limit argv)
      (load limit source >>= fun _ => runMain limit argv) :=
    (load_ignores_trace limit source).next fun _ => hmain
  rw [hdeclared, ← shown_of_mirrors (fun _ => rfl) (fun _ => rfl) hrun,
    shown_of_mirrors (fun _ => rfl) (fun _ => rfl) hload]

theorem runDeclared_blind (limit : Nat) (nodes : List Node) (stopped : Option Fault)
    (argv : List String) :
    lineless.Mirrors id (runDeclared limit nodes stopped argv)
      (runDeclared limit (nodes.map Node.unlined) stopped argv) := by
  refine (declarations_blind (evaluatorsBlind limit).entity mainScope nodes).next fun _ => ?_
  have hraise : Blind (raise stopped) := by
    cases stopped with
    | none => exact .pure ()
    | some fault => exact .throw fault
  exact hraise.next fun _ => afterReading_blind limit argv

/-- Declarations that differ in lines only show the same when they are run. -/
theorem shown_runDeclared_of_unlined {limit : Nat} {nodes nodes' : List Node}
    (h : nodes.map Node.unlined = nodes'.map Node.unlined) (stopped : Option Fault)
    (argv : List String) (m : Machine) :
    shown (runDeclared limit nodes stopped argv m) =
      shown (runDeclared limit nodes' stopped argv m) := by
  have hblind := fun nodes : List Node => shown_of_mirrors (fun _ => rfl) (fun _ => rfl)
    (runDeclared_blind limit nodes stopped argv) m
  rw [← hblind nodes, ← hblind nodes', h]

/-! ## On machines that differ in the cells of objects -/

theorem shown_of_paired {π : Equiv.Perm ObjectId} {r r' : EStateM.Result Fault Machine Unit}
    (h : Paired (Machine.Renamed π) id r r') : shown r' = shown r := by
  cases h with
  | ok hm => exact congrArg (Prod.mk none) hm.output
  | error hm => exact congrArg (Prod.mk _) hm.output

theorem entryPoint_renamed {π : Equiv.Perm ObjectId} {s s' : Store} (h : s.Renamed π s') :
    entryPoint s' = entryPoint s := by
  rw [entryPoint, h.entry, entryPoint]
  cases (s.entries mainScope).get? "main" with
  | none => rfl
  | some e =>
    cases e with
    | fn id =>
      dsimp only [Option.map_some, Entity.renamed]
      rw [h.function?]
    | var | mod => rfl

theorem runMain_inStep (π : Equiv.Perm ObjectId) (limit : Nat) (argv : List String) :
    InStep π id (runMain limit argv) (runMain limit argv) := by
  have hargs : InStep π id (bindArgs argv) (bindArgs argv) := by
    have made := newArray_inStep (π := π) (argv.map Value.string)
    rw [List.map_map] at made
    exact .next (change_inStep fun hs => hs.remove standardScope "args") fun _ =>
      made.bind fun v => (newVariable_inStep "args" true v true).bind fun e =>
        declare_inStep e standardScope
  refine .next (query_inStep_id entryPoint_renamed) fun main => hargs.next fun _ => ?_
  cases limit with
  | zero => exact .throw Fault.overflow
  | succ depth =>
    exact (newScope_inStep ..).next fun scope =>
      (instructions_inStep (evaluatorsInStep π depth).instruction scope main.2.body).next fun _ =>
        change_inStep fun hs => hs.clean scope

theorem runDeclared_inStep (π : Equiv.Perm ObjectId) (limit : Nat) (nodes : List Node)
    (stopped : Option Fault) (argv : List String) :
    InStep π id (runDeclared limit nodes stopped argv) (runDeclared limit nodes stopped argv) := by
  refine (declarations_inStep (evaluatorsInStep π limit).entity mainScope nodes).next fun _ => ?_
  have hraise : InStep π id (raise stopped) (raise stopped) := by
    cases stopped with
    | none => exact .pure ()
    | some fault => exact .throw fault
  exact hraise.next fun _ => runMain_inStep π limit argv

/-! ## Two functions in a row -/

theorem runDeclared_append (limit : Nat) (before later : List Node) (stopped : Option Fault)
    (argv : List String) :
    runDeclared limit (before ++ later) stopped argv =
      declarations (entity limit) mainScope before >>= fun _ =>
        runDeclared limit later stopped argv := by
  simp only [runDeclared, declarations_append, bind_assoc]

/-- A function declaration adds a function, if its name is free. -/
theorem exists_function_of_declared {node : Node} (hfits : node.Fits True .declaration)
    (hnode : node.isFunctionDecl = true) :
    ∃ f : Function, f.name = node.declaredName ∧
      ∀ (depth : Nat) (rest : List Node) (stopped : Option Fault) (argv : List String)
        (m : Machine), (m.store.entries mainScope).get? f.name = none →
        runDeclared (depth + 1) (node :: rest) stopped argv m =
          runDeclared (depth + 1) rest stopped argv
            { m with store := m.store.withFunction mainScope f } := by
  cases hfits with
  | moduleDecl | variableDecl => cases hnode
  | @functionDecl line name params body result isExported named listed hbody hresult =>
    let f : Function := ⟨name, isExported, .closure ⟨mainScope, params, body, result⟩⟩
    refine ⟨f, rfl, ?_⟩
    intro depth rest stopped argv m hfree
    -- the machine before the name is declared
    let made : Machine := { m with store := (m.store.addObject (Store.functionObject f)).2 }
    have hlast : params.dropLast.any (·.isRest) = false := by
      rw [List.any_eq_false]
      intro p hp
      simp [listed.single p hp]
    have hnew : newClosure name isExported ⟨mainScope, params, body, result⟩ m =
        .ok ⟨m.store.objects.size⟩ made := by
      unfold newClosure
      rw [hlast]
      rfl
    have hentity : entity (depth + 1) (.functionDecl line name params body result isExported)
        mainScope m = .ok (.fn ⟨m.store.objects.size⟩) made := by
      rw [entity, entityOf, bind_ok hnew]
      rfl
    have hname : made.store.entityName (.fn ⟨m.store.objects.size⟩) = f.name := by
      simp [made, Store.entityName, Store.function?, Store.objectAt?_addObject,
        Store.functionObject]
    have hfree' : made.store.isFree mainScope f.name = true := by
      show (!((m.store.entries mainScope).get? f.name).isSome) = true
      rw [hfree]
      rfl
    simp only [runDeclared, declarations, bind_assoc]
    rw [bind_ok hentity, bind_ok (declare_of_free (by rwa [hname])), hname]
    rfl

/-- Two functions whose names are free can change places. -/
theorem shown_runDeclared_swapped {f g : Node} (hf : f.isFunctionDecl = true)
    (hg : g.isFunctionDecl = true) (hffits : f.Fits True .declaration)
    (hgfits : g.Fits True .declaration) (hne : f.declaredName ≠ g.declaredName)
    (hintact : Intact m.store)
    (hffree : (m.store.entries mainScope).get? f.declaredName = none)
    (hgfree : (m.store.entries mainScope).get? g.declaredName = none) (limit : Nat)
    (after : List Node) (stopped : Option Fault) (argv : List String) :
    shown (runDeclared limit (f :: g :: after) stopped argv m) =
      shown (runDeclared limit (g :: f :: after) stopped argv m) := by
  cases limit with
  | zero => rfl
  | succ depth =>
    obtain ⟨f', hfname, hfrun⟩ := exists_function_of_declared hffits hf
    obtain ⟨g', hgname, hgrun⟩ := exists_function_of_declared hgfits hg
    rw [← hfname] at hffree hne
    rw [← hgname] at hgfree hne
    have hgfree' : ((m.store.withFunction mainScope f').entries mainScope).get? g'.name = none := by
      rwa [Store.get?_withFunction_of_ne hintact.main hne]
    have hffree' : ((m.store.withFunction mainScope g').entries mainScope).get? f'.name = none := by
      rwa [Store.get?_withFunction_of_ne hintact.main hne.symm]
    rw [hfrun depth (g :: after) stopped argv m hffree,
      hgrun depth after stopped argv { m with store := m.store.withFunction mainScope f' } hgfree',
      hgrun depth (f :: after) stopped argv m hgfree,
      hfrun depth after stopped argv { m with store := m.store.withFunction mainScope g' } hffree']
    have hswapped := Store.withFunction_swapped hintact.closed hintact.main hne
    have hmachines : Machine.Renamed _ { m with store := _ } { m with store := _ } :=
      ⟨hswapped, rfl⟩
    exact (shown_of_paired
      ((runDeclared_inStep _ (depth + 1) after stopped argv).paired hmachines)).symm

/-- A name that was free and is not declared is still free. -/
theorem Intact.free_of_declared {limit : Nat} {nodes : List Node} {m' : Machine}
    (h : Intact m.store) (hfits : ∀ node ∈ nodes, node.Fits True .declaration)
    (hd : declarations (Eval.entity limit) mainScope nodes m = .ok () m') {name : String}
    (hfree : (m.store.entries mainScope).get? name = none)
    (hother : ∀ node ∈ nodes, node.declaredName ≠ name) :
    Intact m'.store ∧ (m'.store.entries mainScope).get? name = none := by
  rw [declarations_eq_mapM] at hd
  obtain ⟨es, m₁, hall, hret⟩ := bind_eq_ok hd
  cases hret
  obtain ⟨hintact, hentries⟩ := h.entries_of_all_registered hfits hall
  refine ⟨hintact, ?_⟩
  have hnew : Table.contains ((nodes.map Node.declaredName).zip es) name = false := by
    rw [Bool.eq_false_iff, ne_eq, Table.contains_iff_mem_keys]
    intro hmem
    obtain ⟨pair, hpair, rfl⟩ := List.mem_map.mp hmem
    obtain ⟨node, hnode, hname⟩ := List.mem_map.mp (List.of_mem_zip hpair).1
    exact hother node hnode hname
  rw [hentries, Table.get?_append_or, hfree, Option.none_or]
  rwa [Table.contains, Option.isSome_eq_false_iff, Option.isNone_iff_eq_none] at hnew

/-- Two functions that stand one after the other in a text, and whose names are different and not
declared before, can change places. In a new session and with any arguments, running the text is
running its declarations; in the new order these print the same and end in the same way, well or
with the same fault, and so does every text that reads as the new order, whatever its lines. -/
theorem functions_may_change_places (limit : Nat) (source : String) (argv : List String)
    (tracing : Bool) {before after : List Node} {f g : Node}
    (hread : (Grammar.program limit source).1 = before ++ f :: g :: after)
    (hf : f.isFunctionDecl = true) (hg : g.isFunctionDecl = true)
    (hne : f.declaredName ≠ g.declaredName)
    (hother : ∀ node ∈ before, node.declaredName ≠ f.declaredName ∧
      node.declaredName ≠ g.declaredName) :
    let stopped := (Grammar.program limit source).2
    let shows := fun nodes => shown (runDeclared limit nodes stopped argv (start tracing))
    shown (run limit source argv (start tracing)) = shows (before ++ f :: g :: after) ∧
      shows (before ++ f :: g :: after) = shows (before ++ g :: f :: after) ∧
      ∀ source', (Grammar.program limit source').1.map Node.unlined =
          (before ++ g :: f :: after).map Node.unlined →
        (Grammar.program limit source').2 = stopped →
        shown (run limit source' argv (start tracing)) =
          shown (run limit source argv (start tracing)) := by
  intro stopped shows
  have hfits : ∀ node ∈ before ++ f :: g :: after, node.Fits True .declaration := by
    rw [← hread]
    exact Grammar.program_fits limit source
  have hrun :
      shown (run limit source argv (start tracing)) = shows (before ++ f :: g :: after) := by
    rw [shown_run, hread]
  have hswapped : shows (before ++ f :: g :: after) = shows (before ++ g :: f :: after) := by
    dsimp only [shows]
    rw [runDeclared_append, runDeclared_append]
    cases hd : declarations (entity limit) mainScope before (start tracing) with
    | error fault m => rw [bind_error hd, bind_error hd]
    | ok u m =>
      have hintact : Intact (start tracing).store := ⟨closed_firstStore, Nat.lt_succ_self 2⟩
      have hbefore : ∀ node ∈ before, node.Fits True .declaration :=
        fun node hnode => hfits node (by simp [hnode])
      obtain ⟨hafter, hffree⟩ := hintact.free_of_declared hbefore hd rfl
        fun node hnode => (hother node hnode).1
      obtain ⟨-, hgfree⟩ := hintact.free_of_declared hbefore hd rfl
        fun node hnode => (hother node hnode).2
      rw [bind_ok hd, bind_ok hd]
      exact shown_runDeclared_swapped hf hg (hfits f (by simp)) (hfits g (by simp)) hne hafter
        hffree hgfree limit after stopped argv
  refine ⟨hrun, hswapped, ?_⟩
  intro source' hnodes hstopped
  rw [hrun, hswapped, shown_run, hstopped]
  exact shown_runDeclared_of_unlined hnodes stopped argv (start tracing)

/-- A program whose `main` prints the other function, in both orders. -/
theorem main_and_function_change_places :
    let source := "fn f() = f fn main() \x7bstd::print(f())\x7d"
    let source' := "fn main() \x7bstd::print(f())\x7d\nfn f() = f"
    let read := Grammar.program 15 source
    let read' := Grammar.program 15 source'
    ∃ f g, read.1 = [] ++ f :: g :: [] ∧ f.isFunctionDecl = true ∧ g.isFunctionDecl = true ∧
      f.declaredName ≠ g.declaredName ∧
      read'.1.map Node.unlined = ([] ++ g :: f :: []).map Node.unlined ∧ read'.2 = read.2 ∧
      shown (run 15 source' [] (start false)) = shown (run 15 source [] (start false)) ∧
      shown (run 15 source [] (start false)) = (none, "fn f(0 params) []\n") := by
  intro source source' read read'
  let f : Node := .functionDecl 1 "f" [] [] (.identifier 1 "f") false
  let g : Node := .functionDecl 1 "main" [] [.call 1 (.moduleAccess 1 (.identifier 1 "std") "print")
    [.call 1 (.identifier 1 "f") []]] (.undefined 0) false
  have hread : read = ([f, g], none) := by
    dsimp only [read, source, f, g]
    cbv
  have hread' : read'.1.map Node.unlined = [g, f].map Node.unlined ∧ read'.2 = none := by
    dsimp only [read', source', f, g]
    cbv
  have hshown : shown (run 15 source [] (start false)) = (none, "fn f(0 params) []\n") := by
    rw [shown_run, show Grammar.program 15 source = ([f, g], none) from hread]
    dsimp only [f, g]
    cbv
  have hstopped : read'.2 = read.2 := by rw [hread, hread'.2]
  have hnodes : read.1 = [] ++ f :: g :: [] := congrArg Prod.fst hread
  have hsame := functions_may_change_places 15 source [] false hnodes rfl rfl (by decide) (by simp)
  exact ⟨f, g, hnodes, rfl, rfl, by decide, hread'.1, hstopped,
    hsame.2.2 source' hread'.1 hstopped, hshown⟩

end Session

end Scriptlet
