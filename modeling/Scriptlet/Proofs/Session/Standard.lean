import Scriptlet.Proofs.Session.Constant
import Scriptlet.Proofs.Session.EntryPoint

/-!
# The tables of the host

Three scopes belong to the host: the global one, that of the standard module and that of the main
module. Whatever a host does with a session, the global scope holds the standard module and nothing
else, the standard module holds its natives in their order, and the main module is only ever added
to. One name comes and goes: a run that has found its entry point puts its arguments behind the
natives of the standard module, in place of those of an earlier run.

* `Store.KnowsArgs` : the arguments are known, in an array.
* `Started` : some run of a history has found its entry point.
* `State.HostTables` : how the tables are then; `perform_hostTables` : every step keeps them so.
* `host_tables_stay_intact` : so it is after every history, and this is how a run finds them.

A program declares in the main module and in scopes of its own. A program that declares a `std` of
its own declares it in one of those, so it cannot reach the global scope.
-/

namespace Scriptlet

open Session

/-- The natives stand in the standard module, and behind them an exported constant `args` for the
array. -/
def Store.KnowsArgs (s : Store) (array : ArrayId) : Prop :=
  ∃ id, s.entries standardScope = standardEntries ++ [("args", .var id)] ∧
    s.variableAt? id = some ⟨"args", true, .array array, true⟩

/-- The tables of the host are intact. Arguments are known if some run has `started`. -/
structure Store.HostTables (started : Prop) (s : Store) : Prop where
  global : s.entries globalScope = [("std", .mod standardModule)]
  natives : ∀ i f, natives[i]? = some f → s.function? ⟨i⟩ = some f
  known : started → ∃ array, s.KnowsArgs array
  unknown : ¬ started → s.entries standardScope = standardEntries

namespace Store.HostTables

variable {started : Prop} {s s' : Store}

theorem of_iff {other : Prop} (h : s.HostTables started) (hiff : started ↔ other) :
    s.HostTables other :=
  ⟨h.global, h.natives, fun hother => h.known (hiff.mpr hother),
    fun hnot => h.unknown fun hstarted => hnot (hiff.mp hstarted)⟩

/-- What leaves the two tables alone and keeps constants and functions leaves all intact. -/
theorem keeps {drops : ScopeId → String → Prop} (h : s.HostTables started) (hk : s.Keeps drops s')
    (hg : s'.entries globalScope = s.entries globalScope)
    (hs : s'.entries standardScope = s.entries standardScope) : s'.HostTables started where
  global := hg.trans h.global
  natives i f hf := hk.functions _ _ (h.natives i f hf)
  known hstarted := by
    obtain ⟨array, id, hentries, hx⟩ := h.known hstarted
    exact ⟨array, id, hs.trans hentries, hk.constants id _ hx rfl⟩
  unknown hnot := hs.trans (h.unknown hnot)

/-- Evaluation in the main module leaves the tables alone, whether or not it may declare there. -/
theorem changes {isOpen : Prop} (h : s.HostTables started) (hgrown : 3 ≤ s.scopes.size)
    (hc : Changes (.inScope s mainScope isOpen) s s') : s'.HostTables started := by
  have hglobal : s.Has (.scope globalScope) := Nat.lt_of_lt_of_le (by decide) hgrown
  have hstandard : s.Has (.scope standardScope) := Nat.lt_of_lt_of_le (by decide) hgrown
  exact h.keeps hc.keeps_names ((hc.declaresIn _ hglobal).2.2.1 (by decide))
    ((hc.declaresIn _ hstandard).2.2.1 (by decide))

/-- So it does if a scope of its own is emptied in the end. -/
theorem changes_clean {isOpen : Prop} (h : s.HostTables started) (hgrown : 3 ≤ s.scopes.size)
    (hc : Changes (.inScope s mainScope isOpen) s s') {scope : ScopeId}
    (hnew : s.scopes.size ≤ scope.index) : (s'.clean scope).HostTables started := by
  have hglobal : s.Has (.scope globalScope) := Nat.lt_of_lt_of_le (by decide) hgrown
  have hstandard : s.Has (.scope standardScope) := Nat.lt_of_lt_of_le (by decide) hgrown
  have hne : ∀ id : ScopeId, id.index < 3 → scope ≠ id := by
    rintro id hid rfl
    omega
  refine h.keeps (hc.keeps_names.clean (Nat.not_lt.mpr hnew)) ?_ ?_
  · rw [Store.clean, s'.entries_modifyEntries_of_ne (hne _ (by decide))]
    exact (hc.declaresIn _ hglobal).2.2.1 (by decide)
  · rw [Store.clean, s'.entries_modifyEntries_of_ne (hne _ (by decide))]
    exact (hc.declaresIn _ hstandard).2.2.1 (by decide)

/-- Without the arguments of an earlier run the natives are left. -/
theorem remove_args (h : s.HostTables started) :
    (s.entries standardScope).remove "args" = standardEntries := by
  have hnatives : standardEntries.remove "args" = standardEntries := by decide
  by_cases hstarted : started
  · obtain ⟨array, id, hentries, -⟩ := h.known hstarted
    have hlast : Table.remove [("args", Entity.var id)] "args" = [] := rfl
    rw [hentries, Table.remove, List.filter_append]
    exact (congrArg₂ (· ++ ·) hnatives hlast).trans (List.append_nil _)
  · rw [h.unknown hstarted, hnatives]

/-- A run that makes its arguments known puts them behind the natives, in an array of their own. -/
theorem knowsArgs_withArgs (h : s.HostTables started) (hgrown : 3 ≤ s.scopes.size)
    (argv : List String) : (s.withArgs argv).KnowsArgs ⟨s.arrays.size⟩ := by
  have hstandard : s.Has (.scope standardScope) := Nat.lt_of_lt_of_le (by decide) hgrown
  obtain ⟨scope, hscope⟩ : ∃ scope, s.scopeAt? standardScope = some scope :=
    ⟨_, Array.getElem?_eq_getElem hstandard⟩
  refine ⟨⟨s.vars.size⟩, ?_, ?_⟩
  · have hown : s.entries standardScope = scope.entries := by rw [Store.entries, hscope]; rfl
    have hentries : (s.withArgs argv).entries standardScope =
        (s.entries standardScope).remove "args" ++ [("args", .var ⟨s.vars.size⟩)] := by
      let added (entries : Table Entity) := entries.remove "args" ++ [("args", .var ⟨s.vars.size⟩)]
      have hscope' : (s.withArgs argv).scopeAt? standardScope =
          some { scope with entries := added scope.entries } := by
        have hmodified := s.scopeAt?_modifyEntries standardScope standardScope added
        rw [if_pos rfl, hscope] at hmodified
        exact hmodified
      rw [hown, Store.entries, hscope']
      rfl
    rw [hentries, h.remove_args]
  · simp [Store.withArgs, Store.variableAt?]

theorem withArgs (h : s.HostTables started) (hgrown : 3 ≤ s.scopes.size) (argv : List String) :
    (s.withArgs argv).HostTables True where
  global := by rw [s.entries_withArgs (by decide), h.global]
  natives := h.natives
  known _ := ⟨_, h.knowsArgs_withArgs hgrown argv⟩
  unknown hnot := absurd trivial hnot

end Store.HostTables

namespace Session

open Eval

variable {m m' : Machine} {started : Prop}

/-! ## Runs -/

/-- What a run that has found its entry point does before it enters it. -/
theorem prepare_of_found {limit : Nat} {source : String} {argv : List String}
    {main : String × Closure} {m₀ : Machine} (hr : reading limit source m = .ok () m₀)
    (he : entryPoint m₀.store = .ok main) :
    prepare limit source argv m = .ok main { m₀ with store := m₀.store.withArgs argv } := by
  have hprepare : prepare limit source argv = reading limit source >>= fun _ =>
      query entryPoint >>= fun main => bindArgs argv >>= fun _ => pure main := rfl
  rw [hprepare, bind_ok hr, bind_ok (Does.query_ok he), bind_ok (bindArgs_eq argv m₀)]
  rfl

/-- A run fails while it reads and evaluates the declarations, or because there is no entry point
among them, or it enters the entry point with its arguments known. -/
theorem run_cases (limit : Nat) (source : String) (argv : List String) (m : Machine) :
    (∃ f m', reading limit source m = .error f m' ∧ run limit source argv m = .error f m') ∨
    (∃ f m₀, reading limit source m = .ok () m₀ ∧ entryPoint m₀.store = .error f ∧
      run limit source argv m = .error f m₀) ∨
    ∃ main m₀, reading limit source m = .ok () m₀ ∧ entryPoint m₀.store = .ok main ∧
      run limit source argv m =
        enter limit main.1 main.2 { m₀ with store := m₀.store.withArgs argv } := by
  have hrun : run limit source argv = reading limit source >>= fun _ =>
      query entryPoint >>= fun main => bindArgs argv >>= fun _ => enter limit main.1 main.2 := rfl
  cases hr : reading limit source m with
  | error f m' => exact Or.inl ⟨f, m', rfl, by rw [hrun, bind_error hr]⟩
  | ok _ m₀ =>
    refine Or.inr ?_
    cases he : entryPoint m₀.store with
    | error f =>
      refine Or.inl ⟨f, m₀, rfl, he, ?_⟩
      rw [hrun, bind_ok hr, bind_error (Does.query_error he)]
    | ok main =>
      refine Or.inr ⟨main, m₀, rfl, he, ?_⟩
      rw [run_eq, bind_ok (prepare_of_found hr he)]

/-- The declarations of a run go into the main module. -/
theorem reading_does {π : Permit} (hπ : Hosts π) (limit : Nat) (source : String) :
    Does π m (reading limit source) fun _ _ => True := by
  refine readAnd_does (Grammar.root_yields limit) ?_ source
  intro node m hf
  refine Does.bind (register_does hπ limit hf) ?_
  intro e _ _ _
  exact Does.ask_bind (Does.note _)

/-- Entering the entry point leaves the tables alone, however it ends. -/
theorem enter_hostTables (hs : m.store.Sound permit) (h : m.store.HostTables started) (limit : Nat)
    (name : String) {c : Closure} (around : m.store.Has (.scope c.scope)) :
    (final (enter limit name c) m).store.HostTables started := by
  cases limit with
  | zero => exact h
  | succ depth =>
    let π := Permit.inScope m.store mainScope False
    have hbody := body_does (π := π) depth name around False.elim hs.closed.sound_inScope
    rw [enter_eq, final]
    cases hr : body depth name c m with
    | error f m' =>
      rw [bind_error hr]
      exact h.changes hs.grown (hbody.of_error hr).1
    | ok scope m' =>
      obtain ⟨hchanges, hnew⟩ := hbody.of_ok hr
      rw [bind_ok hr]
      exact h.changes_clean hs.grown hchanges hnew

theorem hosts_inScope {s : Store} (hgrown : 3 ≤ s.scopes.size) :
    Hosts (.inScope s mainScope True) where
  grown := hgrown
  opens _ := Or.inr ⟨rfl, trivial⟩

/-- A run that has found its entry point. -/
def Starts (limit : Nat) (source : String) (m : Machine) : Prop :=
  ∃ main m₀, reading limit source m = .ok () m₀ ∧ entryPoint m₀.store = .ok main

/-- The declarations of a run leave the tables alone. -/
theorem reading_hostTables (hs : m.store.Sound permit) (h : m.store.HostTables started)
    {limit : Nat} {source : String} (hr : final (reading limit source) m = m') :
    m'.store.HostTables started ∧ 3 ≤ m'.store.scopes.size := by
  have hsound : m.store.Sound (.inScope m.store mainScope True) := hs.closed.sound_inScope
  have hchanges := (reading_does (hosts_inScope hs.grown) limit source).changes_final hsound
  rw [hr] at hchanges
  exact ⟨h.changes hs.grown hchanges, Nat.le_trans hs.grown (hchanges.sound hsound).grown⟩

/-- After a run arguments are known, if it or an earlier one has found its entry point. -/
theorem run_hostTables (hs : m.store.Sound permit) (h : m.store.HostTables started) (limit : Nat)
    (source : String) (argv : List String) :
    (final (run limit source argv) m).store.HostTables (started ∨ Starts limit source m) := by
  rcases run_cases limit source argv m with
    ⟨f, m', hr, hrun⟩ | ⟨f, m₀, hr, he, hrun⟩ | ⟨main, m₀, hr, he, hrun⟩
  · have hnot : ¬ Starts limit source m := by
      rintro ⟨main, m₀, hr', -⟩
      rw [hr] at hr'
      cases hr'
    have hread := (reading_hostTables hs h (by rw [final, hr])).1
    rw [final, hrun]
    exact hread.of_iff (by simp [hnot])
  · have hnot : ¬ Starts limit source m := by
      rintro ⟨main, m₁, hr', he'⟩
      rw [hr] at hr'
      cases hr'
      rw [he] at he'
      cases he'
    have hread := (reading_hostTables hs h (by rw [final, hr])).1
    rw [final, hrun]
    exact hread.of_iff (by simp [hnot])
  · have hstarts : Starts limit source m := ⟨main, m₀, hr, he⟩
    obtain ⟨hread, hgrown⟩ := reading_hostTables hs h (by rw [final, hr])
    obtain ⟨hchanges, around, -⟩ :=
      (prepare_does serves_permit limit source argv hs).of_ok (prepare_of_found hr he)
    have hentered := enter_hostTables (hchanges.sound hs) (hread.withArgs hgrown argv) limit main.1
      around
    have hfinal : final (run limit source argv) m = final (enter limit main.1 main.2)
        { m₀ with store := m₀.store.withArgs argv } := by rw [final, hrun, final]
    rw [hfinal]
    exact hentered.of_iff (by simp [hstarts])

/-! ## Any step -/

/-- The step is a run that finds its entry point. -/
def Step.Starts (limit : Nat) (m : Machine) : Step → Prop
  | .run source _ => Session.Starts limit source m
  | _ => False

theorem State.Sound.perform_hostTables {st : State} (hs : st.Sound)
    (h : st.machine.store.HostTables started) (limit : Nat) (step : Step) :
    (st.perform limit step).2.machine.store.HostTables
      (started ∨ step.Starts limit st.machine) := by
  rw [State.perform_machine]
  by_cases hrun : ∃ source argv, step = .run source argv
  · obtain ⟨source, argv, rfl⟩ := hrun
    rw [final_run]
    exact run_hostTables hs.store h limit source argv
  · have hnot : ¬ step.Starts limit st.machine := by
      intro hstarts
      cases step with
      | run source argv => exact hrun ⟨source, argv, rfl⟩
      | _ => exact hstarts
    have hact := Session.act_does (hosts_inScope hs.store.grown) limit step
      (fun source argv he => absurd ⟨source, argv, he⟩ hrun) hs.held
    have hchanges := hact.changes_final hs.store.closed.sound_inScope
    exact (h.changes hs.store.grown hchanges).of_iff (by simp [hnot])

/-! ## Any history -/

/-- Some run of a history has found its entry point, whatever became of it after that. -/
def Started (tracing : Bool) (history : List (Nat × Step)) : Prop :=
  ∃ before limit source argv after, history = before ++ (limit, Step.run source argv) :: after ∧
    Starts limit source (play tracing before).machine

theorem started_append_singleton (tracing : Bool) (history : List (Nat × Step)) (limit : Nat)
    (step : Step) : Started tracing (history ++ [(limit, step)]) ↔
      Started tracing history ∨ step.Starts limit (play tracing history).machine := by
  constructor
  · rintro ⟨before, limit', source, argv, after, heq, hstarts⟩
    rcases List.eq_nil_or_concat after with rfl | ⟨after, last, rfl⟩
    · -- the run is the last step
      obtain ⟨rfl, hlast⟩ := List.append_inj' heq rfl
      cases hlast
      exact Or.inr hstarts
    · rw [List.concat_eq_append, ← List.cons_append, ← List.append_assoc] at heq
      obtain ⟨rfl, -⟩ := List.append_inj' heq rfl
      exact Or.inl ⟨before, limit', source, argv, after, rfl, hstarts⟩
  · rintro (⟨before, limit', source, argv, after, rfl, hstarts⟩ | hstarts)
    · exact ⟨before, limit', source, argv, after ++ [(limit, step)], by simp, hstarts⟩
    · cases step with
      | run source argv => exact ⟨history, limit, source, argv, [], rfl, hstarts⟩
      | _ => exact hstarts.elim

theorem hostTables_firstStore : firstStore.HostTables False where
  global := by decide
  natives := by
    intro i f hf
    simp [Store.function?, Store.objectAt?, firstStore, hf]
  known := False.elim
  unknown _ := by decide

theorem play_hostTables (tracing : Bool) (history : List (Nat × Step)) :
    (play tracing history).machine.store.HostTables (Started tracing history) := by
  induction history using List.reverseRecOn with
  | nil =>
    refine hostTables_firstStore.of_iff ⟨False.elim, ?_⟩
    rintro ⟨before, limit, source, argv, after, hnil, -⟩
    simp at hnil
  | append_singleton history step ih =>
    have hsound := (play_spec tracing history).1
    have hstep := hsound.perform_hostTables ih step.1 step.2
    rw [play_append]
    exact hstep.of_iff (started_append_singleton tracing history step.1 step.2).symm

/-- For every sequence of steps on a new session and all that may follow: the global scope holds the
standard module and nothing else. The standard module holds its natives, in their order, and behind
them an exported constant `args` if, and only if, some run has found its entry point. Making
arguments known never fails. A run that finds its entry point enters it with the strings of its
arguments as the elements of a new array, which `args` stands for. The main module has what it had,
and perhaps more behind it. -/
theorem host_tables_stay_intact (tracing : Bool) (history future : List (Nat × Step)) :
    let m := (play tracing history).machine
    m.store.entries globalScope = [("std", .mod standardModule)] ∧
      (∀ i f, natives[i]? = some f → m.store.function? ⟨i⟩ = some f) ∧
      (Started tracing history → ∃ array, m.store.KnowsArgs array) ∧
      (¬ Started tracing history → m.store.entries standardScope = standardEntries) ∧
      (∀ argv n, ∃ n', bindArgs argv n = .ok () n') ∧
      (∀ limit source argv main m₀, reading limit source m = .ok () m₀ →
        entryPoint m₀.store = .ok main → ∃ m₁ array,
          run limit source argv m = enter limit main.1 main.2 m₁ ∧ m₁.store.KnowsArgs array ∧
            m₁.store.elements array = (argv.map Value.string).toArray ∧
            ¬ m₀.store.Has (.array array)) ∧
      m.store.entries mainScope <+:
        (play tracing (history ++ future)).machine.store.entries mainScope := by
  intro m
  have hsound := (play_spec tracing history).1
  have htables := play_hostTables tracing history
  refine ⟨htables.global, htables.natives, htables.known, htables.unknown, ?_, ?_, ?_⟩
  · intro argv n
    exact ⟨_, bindArgs_eq argv n⟩
  · intro limit source argv main m₀ hr he
    obtain ⟨hread, hgrown⟩ := reading_hostTables hsound.store htables (by rw [final, hr])
    refine ⟨{ m₀ with store := m₀.store.withArgs argv }, ⟨m₀.store.arrays.size⟩, ?_,
      hread.knowsArgs_withArgs hgrown argv, ?_, Nat.lt_irrefl _⟩
    · rw [run_eq, bind_ok (prepare_of_found hr he)]
    · simp [Store.withArgs, Store.elements]
  · have hchanges := (hsound.steps future).2
    rw [← play_append] at hchanges
    have hmain := serves_permit.toHosts.has_mainScope hsound.store
    have hextends := hchanges.extends hmain (by
      rintro name (hlarge | ⟨hid, -⟩)
      · exact absurd hlarge (by decide)
      · exact absurd hid (by decide))
    obtain ⟨added, hadded, -⟩ := hextends.entries
    exact ⟨added, hadded.symm⟩

/-- A program that pushes onto its own arguments is run, and then a text with a `std` of its own but
without an entry point. -/
theorem host_tables_after_two_runs :
    let first := "fn main() \x7b std::push(std::args, 1) \x7d"
    let history : List (Nat × Step) := [(30, .run first ["a"]), (30, .run "const std = 2" [])]
    let s := (play false history).machine.store
    Started false history ∧ s.entries globalScope = [("std", .mod standardModule)] ∧
      (∃ array, s.KnowsArgs array) ∧ ∃ main m₀, reading 30 first (start false) = .ok () m₀ ∧
        entryPoint m₀.store = .ok main ∧ ∃ m₁ array,
          run 30 first ["a"] (start false) = enter 30 main.1 main.2 m₁ ∧ m₁.store.KnowsArgs array ∧
            m₁.store.elements array = #[.string "a"] := by
  intro first history s
  have hfound : (after? (reading 30 first) (start false)).bind
      (fun m₀ => (entryPoint m₀.store).toOption.map (·.1)) = some "main" := by
    dsimp only [first]
    cbv
  obtain ⟨m₀, hafter, hmain⟩ := Option.bind_eq_some_iff.mp hfound
  obtain ⟨_, hr⟩ := ok_of_after? hafter
  obtain ⟨main, hoption, -⟩ := Option.map_eq_some_iff.mp hmain
  have he : entryPoint m₀.store = .ok main := by
    cases hentry : entryPoint m₀.store with
    | error f =>
      rw [hentry] at hoption
      cases hoption
    | ok found =>
      rw [hentry] at hoption
      cases hoption
      rfl
  have hstarted : Started false history := ⟨[], 30, first, ["a"], _, rfl, main, m₀, hr, he⟩
  obtain ⟨hglobal, -, hknown, -⟩ := host_tables_stay_intact false history []
  obtain ⟨m₁, array, hrun, hargs, helements, -⟩ :=
    (host_tables_stay_intact false [] []).2.2.2.2.2.1 30 first ["a"] main m₀ hr he
  exact ⟨hstarted, hglobal, hknown hstarted, main, m₀, hr, he, m₁, array, hrun, hargs, helements⟩

end Session

end Scriptlet
