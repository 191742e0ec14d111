import Mathlib
import Scriptlet.Proofs.Machine.Composed
import Scriptlet.Proofs.Session.History
import Scriptlet.Proofs.Store.Lasting

/-!
# A run is a load and a call

There are two ways to have a program executed: to run it, or to load it and to call its `main`. They
are written separately, but for a `main` that takes no arguments and returns nothing they come to
the same: the same is printed, they fail alike, and they leave the same store behind. Only the scope
of the entry point is emptied at the end of a run that succeeds, and left alone after a call.

The two also record different events. Nothing looks at the record (`Composed.ignores_trace`), so the
one can be compared with the other step by step, up to the record:

* `reading_erases_to_load` : the declarations of a run are loaded.
* `bindArgs_eq` : what it means to make the arguments known.
* `call_main` : a call of `main` executes the body of `main`, as a run does.
-/

namespace Scriptlet

/-! ## Tables of scopes -/

/-- A name that a scope declares itself stands for that. -/
theorem Store.resolve?_of_own {s : Store} {scope : ScopeId} {name : String} {e : Entity}
    (h : (s.entries scope).get? name = some e) : s.resolve? scope name = some e := by
  have hsize : s.scopes.size = (s.scopes.size - 1) + 1 := by
    have hthere : scope.index < s.scopes.size := Store.has_scope_of_get? h
    omega
  rw [resolve?, scopeChain, hsize, follow, List.findSome?_cons, h]

/-- A name that was removed has no entry. -/
theorem Table.contains_remove {β : Type} (t : Table β) (name : String) :
    (t.remove name).contains name = false := by
  rw [Bool.eq_false_iff, ne_eq, contains_iff_mem_keys]
  simp [remove, keys]

/-- The table that was changed, in a store that has one for the scope or changes none. -/
theorem Store.entries_modifyEntries (s : Store) (id : ScopeId) {f : Table Entity → Table Entity}
    (h : f [] = []) : (s.modifyEntries id f).entries id = f (s.entries id) := by
  simp only [entries, scopeAt?_modifyEntries, if_true]
  cases s.scopeAt? id with
  | none => exact h.symm
  | some scope => rfl

/-- Two changes of one table are one. -/
theorem Store.modifyEntries_modifyEntries (s : Store) (id : ScopeId)
    (f g : Table Entity → Table Entity) :
    (s.modifyEntries id f).modifyEntries id g =
      s.modifyEntries id fun entries => g (f entries) := by
  have hscopes : ((s.modifyEntries id f).modifyEntries id g).scopes =
      (s.modifyEntries id fun entries => g (f entries)).scopes := by
    refine Array.ext_getElem? fun i => ?_
    simp only [modifyEntries, Array.getElem?_modify]
    split
    · cases s.scopes[i]? <;> rfl
    · rfl
  exact congrArg (fun scopes => { s with scopes }) hscopes

/-- The store in which the arguments of a run are known: a constant of the standard module, in place
of those of an earlier run, that stands for a new array of strings. -/
def Store.withArgs (s : Store) (argv : List String) : Store :=
  { s.modifyEntries Session.standardScope
      fun entries => entries.remove "args" ++ [("args", .var ⟨s.vars.size⟩)] with
    vars := s.vars.push ⟨"args", true, .array ⟨s.arrays.size⟩, true⟩
    arrays := s.arrays.push (argv.map Value.string).toArray }

theorem Store.entries_withArgs (s : Store) {scope : ScopeId} (h : Session.standardScope ≠ scope)
    (argv : List String) : (s.withArgs argv).entries scope = s.entries scope := by
  rw [← s.entries_modifyEntries_of_ne h
    fun entries => entries.remove "args" ++ [("args", .var ⟨s.vars.size⟩)]]
  rfl

theorem Store.size_withArgs (s : Store) (argv : List String) :
    (s.withArgs argv).scopes.size = s.scopes.size := Array.size_modify

namespace Session

open Eval

variable {m m' : Machine}

/-! ## The declarations -/

/-- Items that are read and acted on in turn, where the actions do the same up to the record. -/
theorem interleave_erases {item : Reader Node} {act act' : Node → Eval Unit}
    (h : ∀ node, traceless.Mirrors id (act node) (act' node)) :
    ∀ (bound : List Token) (stream : Stream),
      traceless.Mirrors id (interleave item act bound stream) (interleave item act' bound stream)
  | bound, stream => by
    unfold interleave
    cases Reader.finished stream with
    | error f rest => exact .throw f
    | ok ended rest =>
      cases ended with
      | true => exact .pure ()
      | false =>
        dsimp only
        cases item rest with
        | error f after => exact .throw f
        | ok node after =>
          refine (h node).next fun _ => ?_
          cases bound with
          | nil => exact .throw Fault.overflow
          | cons t bound => exact interleave_erases h bound after

theorem register_composed (limit : Nat) (node : Node) : Composed (register limit node) :=
  ((evaluatorsComposed limit).entity node mainScope).bind fun e =>
    (declare_composed e mainScope).bind fun _ => .pure e

/-- The declarations of a run. -/
def reading (limit : Nat) (source : String) : Eval Unit :=
  readAnd (Grammar.root limit)
    (fun node => do
      let e ← register limit node
      note (.registered (← ask (·.entityName e)) mainModule.name))
    source

theorem reading_erases_to_load (limit : Nat) (source : String) :
    traceless.Mirrors id (reading limit source) (load limit source) := by
  refine interleave_erases (fun node => ?_) _ _
  refine (register_composed limit node).ignores_trace.next fun e => ?_
  show traceless.Mirrors id (ask (·.entityName e) >>= _) (ask (·.entityName e) >>= fun _ => pure ())
  exact (Composed.ask _).ignores_trace.next fun _ => note_erased _

theorem load_ignores_trace (limit : Nat) (source : String) :
    traceless.Mirrors id (load limit source) (load limit source) :=
  interleave_erases
    (fun node => ((register_composed limit node).bind fun _ => .pure ()).ignores_trace) _ _

/-- The declarations of a run do what a load does, up to the record. -/
theorem reading_alike (limit : Nat) (source : String) (m : Machine) :
    traceless.outcome id (reading limit source m) = traceless.outcome id (load limit source m) := by
  rw [← (reading_erases_to_load limit source).outcome_eq,
    (load_ignores_trace limit source).outcome_eq]

/-! ## The arguments -/

/-- To make the arguments known never fails. -/
theorem bindArgs_eq (argv : List String) (m : Machine) :
    bindArgs argv m = .ok () { m with store := m.store.withArgs argv } := by
  -- the store before the new constant is declared
  let s : Store :=
    { m.store.modifyEntries standardScope (·.remove "args") with
      vars := m.store.vars.push ⟨"args", true, .array ⟨m.store.arrays.size⟩, true⟩
      arrays := m.store.arrays.push (argv.map Value.string).toArray }
  show declare (.var ⟨m.store.vars.size⟩) standardScope { m with store := s } = _
  have hname : s.entityName (.var ⟨m.store.vars.size⟩) = "args" := by
    simp [s, Store.entityName, Store.variableAt?]
  have hfree : s.isFree standardScope "args" = true := by
    show (!((m.store.modifyEntries standardScope (·.remove "args")).entries standardScope).contains
      "args") = true
    rw [Store.entries_modifyEntries _ _ rfl, Table.contains_remove]
    rfl
  rw [declare_of_free (by rw [hname]; exact hfree), hname]
  have htwice := m.store.modifyEntries_modifyEntries standardScope (·.remove "args")
    (· ++ [("args", .var ⟨m.store.vars.size⟩)])
  have hstore : s.bind standardScope "args" (.var ⟨m.store.vars.size⟩) = m.store.withArgs argv := by
    rw [Store.withArgs, ← htwice]
    rfl
  rw [hstore]

/-! ## The entry point -/

/-- A function that a program can begin with, and that gives nothing back: a `main` of the main
module itself, written in the language, without parameters and without a result. -/
structure EntryPoint (s : Store) (name : String) (c : Closure) : Prop where
  declared : ∃ id isExported, (s.entries mainScope).get? "main" = some (.fn id) ∧
    s.function? id = some ⟨name, isExported, .closure c⟩
  params : c.params = []
  result : ∃ line, c.result = .undefined line

namespace EntryPoint

variable {s : Store} {name : String} {c : Closure}

/-- A run begins with it. -/
theorem entryPoint_eq (h : EntryPoint s name c) : entryPoint s = .ok (name, c) := by
  obtain ⟨id, isExported, hmain, hfunction⟩ := h.declared
  simp [entryPoint, hmain, hfunction, h.params]

/-- Making arguments known leaves it as it is. -/
theorem withArgs (h : EntryPoint s name c) (argv : List String) :
    EntryPoint (s.withArgs argv) name c := by
  obtain ⟨id, isExported, hmain, hfunction⟩ := h.declared
  refine ⟨⟨id, isExported, ?_, hfunction⟩, h.params, h.result⟩
  rw [s.entries_withArgs (by decide)]
  exact hmain

theorem bindArguments_eq (h : EntryPoint s name c) :
    bindArguments name c [] = newScope name (some c.scope) := by
  have hrest : c.rest? = none := by simp [Closure.rest?, h.params]
  have hpositional : c.positional = [] := by simp [Closure.positional, hrest, h.params]
  rw [bindArguments, hrest, hpositional]
  rfl

theorem checkEscape_eq (h : EntryPoint s name c) (scope : ScopeId) :
    checkEscape name c scope = pure () := by
  obtain ⟨line, hresult⟩ := h.result
  rw [checkEscape, hresult]
  rfl

/-- What a call of it does. -/
theorem callClosure_eq (h : EntryPoint s name c) (depth : Nat) :
    callClosure (value depth) (instruction depth) name c [] =
      body depth name c >>= fun _ => pure .undefined := by
  obtain ⟨line, hresult⟩ := h.result
  simp only [callClosure, body, h.bindArguments_eq, h.checkEscape_eq, hresult, bind_assoc,
    pure_bind]

/-- A call of `main` calls it. -/
theorem call_eq (h : EntryPoint m.store name c) (limit : Nat) :
    ∃ id isExported, m.store.function? id = some ⟨name, isExported, .closure c⟩ ∧
      call limit "main" [] m = invoke limit id [] m := by
  obtain ⟨id, isExported, hmain, hfunction⟩ := h.declared
  refine ⟨id, isExported, hfunction, ?_⟩
  have hresolve : resolve mainScope "main" m = .ok (.fn id) m := by
    refine Does.query_ok ?_
    rw [Store.resolve?_of_own hmain]
  have hvalue : query (·.entityValue (.fn id) "main") m = .ok (.object id) m := Does.query_ok rfl
  have hcallable : ask (fun s => (s.function? id).isSome) m = .ok true m := by
    show EStateM.Result.ok (m.store.function? id).isSome m = _
    rw [hfunction]
    rfl
  rw [call, bind_ok hresolve, bind_ok hvalue]
  dsimp only
  rw [bind_ok hcallable]
  rfl

/-- A call of `main` executes its body, as a run does. -/
theorem call_main (h : EntryPoint m.store name c) (depth : Nat) :
    call (depth + 1) "main" [] m =
      (do
        note (.called name 0)
        let _ ← body depth name c
        return .undefined : Eval Value) m := by
  obtain ⟨id, isExported, hfunction, hcall⟩ := h.call_eq (depth + 1)
  have harity : query (·.checkArity id 0) m = .ok () m := by
    refine Does.query_ok ?_
    simp [Store.checkArity, hfunction, Function.checkArity, Closure.rest?, h.params]
  have hask : ask (·.function? id) m = .ok (some ⟨name, isExported, .closure c⟩) m := by
    show EStateM.Result.ok (m.store.function? id) m = _
    rw [hfunction]
  rw [hcall, invoke, invokeOf, List.length_nil, bind_ok harity, bind_ok hask]
  dsimp only
  rw [h.callClosure_eq]

end EntryPoint

theorem body_composed (depth : Nat) (name : String) (c : Closure) :
    Composed (body depth name c) :=
  (newScope_composed ..).bind fun scope =>
    (instructions_composed (evaluatorsComposed depth).instruction scope c.body).bind fun _ =>
      .pure scope

/-- The scope of the entry point is the next one of the store. -/
theorem scope_of_body {depth : Nat} {name : String} {c : Closure} {scope : ScopeId}
    (h : body depth name c m = .ok scope m') : scope = ⟨m.store.scopes.size⟩ := by
  obtain ⟨own, m₁, hnew, h⟩ := bind_eq_ok h
  obtain ⟨_, m₂, -, h⟩ := bind_eq_ok h
  cases h
  cases hnew
  rfl

/-- To enter `main` is to call it and to empty its scope, up to the record. -/
theorem enter_alike {name : String} {c : Closure} (h : EntryPoint m.store name c)
    (hm : m'.untraced = m.untraced) (limit : Nat) :
    traceless.outcome id (enter limit name c m') =
      traceless.outcome id ((do
        let _ ← call limit "main" []
        change (·.clean ⟨m.store.scopes.size⟩) : Eval Unit) m) := by
  cases limit with
  | zero =>
    obtain ⟨id, _, -, hcall⟩ := h.call_eq 0
    have hoverflow : call 0 "main" [] m = .error .overflow m := hcall
    rw [bind_error hoverflow]
    exact congrArg (EStateM.Result.error _) hm
  | succ depth =>
    -- the machine after the call was recorded
    obtain ⟨n, hn⟩ : ∃ n, note (.called name 0) m = .ok () n := ⟨_, rfl⟩
    have hnm : n.untraced = m.untraced := by
      have hnoted := (note_erased (.called name 0)).outcome_eq m
      rw [hn] at hnoted
      injection hnoted with _ hstate
      exact hstate.symm
    have hstore : n.store = m.store := congrArg (·.store) hnm
    have hbody := (body_composed depth name c).ignores_trace.eq_of_eq (hm.trans hnm.symm)
    rcases Erasure.cases_of_outcome_eq hbody with
      ⟨scope, m₁, _, n₁, hrun, hcall, hscope, hstate⟩ | ⟨f, m₁, _, n₁, hrun, hcall, hfault, hstate⟩
    · cases hscope
      have hnext : scope = ⟨m.store.scopes.size⟩ := by rw [scope_of_body hcall, hstore]
      have hmain : call (depth + 1) "main" [] m = .ok .undefined n₁ := by
        rw [h.call_main, bind_ok hn, bind_ok hcall]
        rfl
      rw [enter_eq, bind_ok hrun, bind_ok hmain, hnext]
      exact (Composed.change _).ignores_trace.eq_of_eq hstate
    · cases hfault
      have hmain : call (depth + 1) "main" [] m = .error f n₁ := by
        rw [h.call_main, bind_ok hn, bind_error hcall]
      rw [enter_eq, bind_error hrun, bind_error hmain]
      exact congrArg (EStateM.Result.error f) hstate

/-! ## Running against loading and calling -/

/-- An action that fails as another did, up to the record. -/
theorem error_of_alike {α : Type} {r : EStateM.Result Fault Machine α} {f : Fault}
    (h : traceless.outcome id r = traceless.outcome id (.error f m)) :
    ∃ m', r = .error f m' ∧ m'.untraced = m.untraced := by
  rcases Erasure.cases_of_outcome_eq h with ⟨_, _, _, _, _, h', _⟩ | ⟨_, m', _, _, hr, h', hf, hm⟩
  · cases h'
  · cases h'
    cases hf
    exact ⟨m', hr, hm⟩

/-- An action that ends well as another did, up to the record. -/
theorem ok_of_alike {α : Type} {r : EStateM.Result Fault Machine α} {a : α}
    (h : traceless.outcome id r = traceless.outcome id (.ok a m)) :
    ∃ m', r = .ok a m' ∧ m'.untraced = m.untraced := by
  rcases Erasure.cases_of_outcome_eq h with ⟨_, m', _, _, hr, h', ha, hm⟩ | ⟨_, _, _, _, _, h', _⟩
  · cases h'
    cases ha
    exact ⟨m', hr, hm⟩
  · cases h'

/-- What a run does after the declarations. -/
theorem run_of_reading {limit : Nat} {source : String} (argv : List String) {name : String}
    {c : Closure} (hr : reading limit source m = .ok () m') (h : EntryPoint m'.store name c) :
    run limit source argv m = enter limit name c { m' with store := m'.store.withArgs argv } := by
  have hentry : query entryPoint m' = .ok (name, c) m' := Does.query_ok h.entryPoint_eq
  have hrun : run limit source argv = reading limit source >>= fun _ =>
      query entryPoint >>= fun main => bindArgs argv >>= fun _ => enter limit main.1 main.2 := rfl
  rw [hrun, bind_ok hr, bind_ok hentry, bind_ok (bindArgs_eq argv m')]

/-- A run is a load and a call of `main`: if the load fails, the run fails in the same way, with the
arguments of an earlier run still known; if `main` is then a function without parameters and without
a result, the run does what a call of it does once the arguments are known, and empties its scope if
it succeeds. -/
theorem run_eq_load_and_call (limit : Nat) (source : String) (argv : List String) (m : Machine) :
    (∀ f m₁, load limit source m = .error f m₁ →
      ∃ m', run limit source argv m = .error f m' ∧ m'.store = m₁.store ∧
        m'.output = m₁.output) ∧
    ∀ m₁ name c, load limit source m = .ok () m₁ → EntryPoint m₁.store name c →
      (∀ f m₂, call limit "main" [] { m₁ with store := m₁.store.withArgs argv } = .error f m₂ →
        ∃ m', run limit source argv m = .error f m' ∧ m'.store = m₂.store ∧
          m'.output = m₂.output) ∧
      ∀ v m₂, call limit "main" [] { m₁ with store := m₁.store.withArgs argv } = .ok v m₂ →
        ∃ m', run limit source argv m = .ok () m' ∧
          m'.store = m₂.store.clean ⟨m₁.store.scopes.size⟩ ∧ m'.output = m₂.output := by
  have halike := reading_alike limit source m
  refine ⟨?_, ?_⟩
  · intro f m₁ hload
    rw [hload] at halike
    obtain ⟨m', hr, hm⟩ := error_of_alike halike
    refine ⟨m', ?_, congrArg (·.store) hm, congrArg (·.output) hm⟩
    exact bind_error hr
  · intro m₁ name c hload hentry
    rw [hload] at halike
    obtain ⟨m₀, hr, hm⟩ := ok_of_alike halike
    have hstore : m₀.store = m₁.store := congrArg (·.store) hm
    have hrun := run_of_reading argv hr (hstore ▸ hentry)
    have hknown : ({ m₀ with store := m₀.store.withArgs argv } : Machine).untraced =
        ({ m₁ with store := m₁.store.withArgs argv } : Machine).untraced :=
      congrArg (fun n : Machine => { n with store := n.store.withArgs argv }) hm
    have henter := enter_alike (hentry.withArgs argv) hknown limit
    rw [← hrun] at henter
    refine ⟨?_, ?_⟩
    · intro f m₂ hcall
      rw [bind_error hcall] at henter
      obtain ⟨m', hr', hm'⟩ := error_of_alike henter
      exact ⟨m', hr', congrArg (·.store) hm', congrArg (·.output) hm'⟩
    · intro v m₂ hcall
      rw [bind_ok hcall] at henter
      obtain ⟨m', hr', hm'⟩ := ok_of_alike henter
      refine ⟨m', hr', ?_, congrArg (·.output) hm'⟩
      rw [← m₁.store.size_withArgs argv]
      exact congrArg (·.store) hm'

/-- The machine after an action that ends well. -/
def after? {α : Type} (act : Eval α) (m : Machine) : Option Machine :=
  match act m with
  | .ok _ m' => some m'
  | .error _ _ => none

theorem ok_of_after? {α : Type} {act : Eval α} (h : after? act m = some m') :
    ∃ a, act m = .ok a m' := by
  unfold after? at h
  split at h
  · next a m₁ heq =>
    cases h
    exact ⟨a, heq⟩
  · cases h

/-- A program that prints one of its arguments. -/
theorem run_of_printing_main :
    let source := "fn main() \x7b std::print(std::at(std::args, 1)) \x7d"
    let m := start true
    ∃ m₁ name c v m₂, load 30 source m = .ok () m₁ ∧ EntryPoint m₁.store name c ∧
      call 30 "main" [] { m₁ with store := m₁.store.withArgs ["a", "b"] } = .ok v m₂ ∧
      m₂.output = "b\n" ∧ ∃ m', run 30 source ["a", "b"] m = .ok () m' ∧
        m'.store = m₂.store.clean ⟨m₁.store.scopes.size⟩ ∧ m'.output = m₂.output := by
  intro source m
  let c : Closure :=
    ⟨mainScope, [], [.call 1 (.moduleAccess 1 (.identifier 1 "std") "print")
      [.call 1 (.moduleAccess 1 (.identifier 1 "std") "at")
        [.moduleAccess 1 (.identifier 1 "std") "args", .integer 1 1]]], .undefined 0⟩
  have hruns : (after? (load 30 source) m).map (fun m₁ =>
      ((m₁.store.entries mainScope).get? "main", m₁.store.function? ⟨8⟩,
        (after? (call 30 "main" []) { m₁ with store := m₁.store.withArgs ["a", "b"] }).map
          (·.output))) =
      some (some (.fn ⟨8⟩), some ⟨"main", false, .closure c⟩, some "b\n") := by
    dsimp only [source, m, c]
    cbv
  obtain ⟨m₁, hafter, hfacts⟩ := Option.map_eq_some_iff.mp hruns
  obtain ⟨hmain, hrest⟩ := Prod.mk.inj hfacts
  obtain ⟨hfunction, hprints⟩ := Prod.mk.inj hrest
  obtain ⟨m₂, hafter₂, houtput⟩ := Option.map_eq_some_iff.mp hprints
  obtain ⟨_, hload⟩ := ok_of_after? hafter
  obtain ⟨v, hcall⟩ := ok_of_after? hafter₂
  have hentry : EntryPoint m₁.store "main" c := ⟨⟨⟨8⟩, false, hmain, hfunction⟩, rfl, 0, rfl⟩
  exact ⟨m₁, "main", c, v, m₂, hload, hentry, hcall, houtput,
    ((run_eq_load_and_call 30 source ["a", "b"] m).2 m₁ "main" c hload hentry).2 v m₂ hcall⟩

end Session

end Scriptlet
